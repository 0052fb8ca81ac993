import EquationFigure.Figure.Rendering

/-!
# What a figure asks for, and what comes of it

Read as a plan, a document is a list of evaluated attributes: first the view box, then those of the
elements, each element before the elements in it, in the order in which the attributes are written.
Worked out one after the other in one session, each of them has its numbers or the first fault that
was met.  All of this is said without a tree, without diagnostics and without a mode, and it is read
off the fields of the document alone: nothing here asks the builder what it does.

* `Demand`, `settle` — what is asked for one after the other, and the numbers or the first fault.
* `Target` — an evaluated attribute by what it is made of: its demands, and its words from the
  numbers.
* `Element.plan` — the tag of an element, the attributes that it may have, and what is in it.
* `Slot`, `Plan.slots` — the places for attributes in a tag.
* `AttributeOutcome`, `outcomes` — what comes of attributes worked out one after the other in a
  session.
* `Document.wanted`, `Document.outcomes` — the attributes of a document and what comes of them.
-/

set_option autoImplicit false

namespace EquationFigure

/-! ## Demands -/

/-- One of the things that working out an attribute asks for. -/
inductive Demand where
  /-- That nothing is wrong here. -/
  | check (fault? : Option Fault)
  /-- The number of a quantity. -/
  | number (q : Quantity)

section Settle

variable (vars : Variables) (options : EvalOptions)

/-- The number of the quantity, or the fault that it has none.  An equation has the number that
evaluating it in the session ends with. -/
def Quantity.answer : Quantity → Attempt Session Fault Float
  | number x => if x.isFinite then return x else .fail (.equation (.nonFinite (numberText x)))
  | equation t =>
    ⟨fun s =>
      match (EquationFigure.evaluate vars options [] t).run s with
      | (.ok x, s) => (.ok x, s)
      | (.error cause, s) => (.error (.equation cause), s)⟩

/-- Meets the demands one after the other, as far as the first that cannot be met, and ends with the
numbers. -/
def settle : List Demand → Attempt Session Fault (List Float)
  | [] => return []
  | .check none :: rest => settle rest
  | .check (some fault) :: _ => .fail fault
  | .number q :: rest => do
    let x ← q.answer vars options
    return x :: (← settle rest)

end Settle

/-! ## Evaluated attributes -/

/-- The letters of path commands, in either case, each with the number of arguments it takes. -/
def pathCommands : List (Char × Nat) :=
  [('M', 2), ('m', 2), ('L', 2), ('l', 2), ('H', 1), ('h', 1), ('V', 1), ('v', 1), ('C', 6),
    ('c', 6), ('S', 4), ('s', 4), ('Q', 4), ('q', 4), ('T', 2), ('t', 2), ('A', 7), ('a', 7),
    ('Z', 0), ('z', 0)]

/-- What is wrong with the segment: its command, but for blanks around it, is none of the letters,
or it has another number of arguments than the letter takes. -/
def Segment.flaw? (segment : Segment) : Option SegmentError :=
  match pathCommands.find? fun c => Text.trim segment.command = [c.1] with
  | none => some (.unknownCommand segment.command)
  | some (letter, expected) =>
    if segment.arguments.length = expected then none
    else some (.arity letter expected segment.arguments.length)

/-- What is wrong with the segment, at place `index` of a path. -/
def Segment.fault? (index : Nat) (segment : Segment) : Option Fault :=
  segment.flaw?.map (.segment index)

/-- The quantities of a view box.  In a text they stand between white space and commas. -/
def ViewBox.quantities : ViewBox → List Quantity
  | text t =>
    ((t.splitOnP fun c => Text.isBlank c || c == ',').filter fun piece => !piece.isEmpty).map
      .equation
  | values l => l

/-- What is wrong with the view box itself. -/
def ViewBox.fault? (viewBox : ViewBox) : Option Fault :=
  if viewBox.quantities.length = 4 then none else some (.viewBoxLength viewBox.quantities.length)

/-- What the segments of a path ask for, from the one at place `index` on: each that its command is
in order, and then its arguments. -/
def segmentDemands (index : Nat) (segments : List Segment) : List Demand :=
  (segments.zipIdx index).flatMap fun s => .check (s.1.fault? s.2) :: s.1.arguments.map .number

/-- Numbers by twos. -/
def pairsOf : List Float → List (Float × Float)
  | x :: y :: rest => (x, y) :: pairsOf rest
  | _ => []

/-- The frame that four numbers make up. -/
def frameOf? : List Float → Option Frame
  | [x, y, width, height] => some ⟨x, y, width, height⟩
  | _ => none

/-- The words of a path: the command of each segment, and behind it as many of the numbers as the
segment has arguments. -/
def outlineWords : List Segment → List Float → List Text
  | [], _ => []
  | segment :: rest, numbers =>
    Text.trim segment.command :: (numbers.take segment.arguments.length).map numberText ++
      outlineWords rest (numbers.drop segment.arguments.length)

/-- What an evaluated attribute is made of. -/
inductive Target where
  /-- A single quantity. -/
  | measure (q : Quantity)
  /-- Points. -/
  | points (l : List Point)
  /-- The segments of a path. -/
  | outline (l : List Segment)
  /-- A view box. -/
  | viewBox (viewBox : ViewBox)

namespace Target

/-- What the attribute asks for, in order. -/
def demands : Target → List Demand
  | measure q => [.number q]
  | points l => l.flatMap fun point => [.number point.x, .number point.y]
  | outline l => segmentDemands 0 l
  | viewBox v => .check v.fault? :: v.quantities.map .number

/-- The words of the attribute, from all its numbers. -/
def words : Target → List Float → List Text
  | measure _, numbers | viewBox _, numbers => numbers.map numberText
  | points _, numbers => (pairsOf numbers).map fun p => numberText p.1 ++ ',' :: numberText p.2
  | outline l, numbers => outlineWords l numbers

/-- The text of the attribute: its words with single spaces between them. -/
def text (target : Target) (numbers : List Float) : Text :=
  [' '].intercalate (target.words numbers)

end Target

/-- An evaluated attribute of a figure. -/
structure Wanted where
  /-- The tag of its element. -/
  element : String
  /-- Its name. -/
  name : String
  /-- What it is made of. -/
  target : Target

/-- The reason that is told of a fault: what its cause says, or how many values the view box has. -/
def Fault.reason : Fault → String
  | viewBoxLength found => "viewBox needs 4 values, found " ++ toString found
  | segment _ cause => cause.message
  | equation cause => cause.message

/-- The diagnostic of an attribute that was left out for the error. -/
def AttributeError.diagnostic (e : AttributeError) : Diagnostic :=
  ⟨e.element, e.name, e.fault.reason⟩

/-- An evaluated attribute and what came of it. -/
structure AttributeOutcome extends Wanted where
  /-- All its numbers, or the first fault. -/
  answer : Except Fault (List Float)

namespace AttributeOutcome

/-- The attribute as it is written, if it has all its numbers. -/
def attribute? (o : AttributeOutcome) : Option Svg.Attribute :=
  match o.answer with
  | .ok numbers => some (o.name, o.target.text numbers)
  | .error _ => none

/-- The error, if there is a fault. -/
def error? (o : AttributeOutcome) : Option AttributeError :=
  match o.answer with
  | .ok _ => none
  | .error fault => some ⟨o.element, o.name, fault⟩

/-- What is told of the attribute if it is left out. -/
def diagnostic? (o : AttributeOutcome) : Option Diagnostic := o.error?.map AttributeError.diagnostic

/-- The frame that the numbers make up. -/
def frame? (o : AttributeOutcome) : Option Frame :=
  match o.answer with
  | .ok numbers => frameOf? numbers
  | .error _ => none

end AttributeOutcome

/-! ## One attribute after the other -/

section Outcomes

variable (vars : Variables) (options : EvalOptions)

/-- What comes of the attribute in the session, and the session afterwards, which knows if the
attribute is left out. -/
def Wanted.workOut (w : Wanted) (s : Session) : AttributeOutcome × Session :=
  match (settle vars options w.target.demands).run s with
  | (.ok numbers, s) => (⟨w, .ok numbers⟩, s)
  | (.error fault, s) =>
    (⟨w, .error fault⟩,
      { s with events := .skipped w.element w.name fault.reason :: s.events })

/-- What comes of the attributes one after the other, from the session on. -/
def outcomes : Session → List Wanted → List AttributeOutcome
  | _, [] => []
  | s, w :: rest => (w.workOut vars options s).1 :: outcomes (w.workOut vars options s).2 rest

/-- The session after the attributes. -/
def sessionPast (s : Session) (wanted : List Wanted) : Session :=
  wanted.foldl (fun s w => (w.workOut vars options s).2) s

variable {vars options}

theorem outcomes_append (s : Session) (first rest : List Wanted) :
    outcomes vars options s (first ++ rest) =
      outcomes vars options s first ++
        outcomes vars options (sessionPast vars options s first) rest := by
  induction first generalizing s with
  | nil => rfl
  | cons w first ih => exact congrArg (List.cons _) (ih _)

theorem sessionPast_append (s : Session) (first rest : List Wanted) :
    sessionPast vars options s (first ++ rest) =
      sessionPast vars options (sessionPast vars options s first) rest :=
  List.foldl_append

theorem toWanted_workOut (w : Wanted) (s : Session) :
    (w.workOut vars options s).1.toWanted = w := by
  rw [Wanted.workOut]
  split <;> rfl

/-- Nothing is lost, doubled or moved on the way from attributes to outcomes. -/
theorem map_toWanted_outcomes (s : Session) (wanted : List Wanted) :
    (outcomes vars options s wanted).map AttributeOutcome.toWanted = wanted := by
  induction wanted generalizing s with
  | nil => rfl
  | cons w rest ih => rw [outcomes, List.map_cons, toWanted_workOut, ih]

/-- What comes of an attribute is what its demands come to in some session. -/
theorem exists_answer_of_mem_outcomes {s : Session} {wanted : List Wanted} {o : AttributeOutcome}
    (h : o ∈ outcomes vars options s wanted) :
    ∃ s', ((settle vars options o.target.demands).run s').1 = o.answer := by
  induction wanted generalizing s with
  | nil => cases h
  | cons w rest ih =>
    rw [outcomes, List.mem_cons] at h
    obtain rfl | h := h
    · refine ⟨s, ?_⟩
      rw [toWanted_workOut, Wanted.workOut]
      split <;> rename_i hrun <;> rw [hrun]
    · exact ih h

end Outcomes

/-! ## Places for attributes -/

/-- The names of attributes around those of the element itself, in the order in which they are
written. -/
def namesAround (own : List String) : List String :=
  ["id", "class"] ++ own ++ ["fill", "stroke", "stroke-width", "opacity", "transform", "style"]

/-- The names of the attributes of a figure, in the order in which they are written. -/
def rootNames : List String := "xmlns" :: namesAround ["viewBox", "width", "height"]

theorem nodup_rootNames : rootNames.Nodup := by decide

/-- A place for an attribute in a tag. -/
inductive Slot where
  /-- The attribute passes a text on. -/
  | passed (name : String) (t : Text)
  /-- The attribute is evaluated. -/
  | evaluated (name : String) (target : Target)

namespace Slot

/-- The name of the attribute. -/
def name : Slot → String
  | passed name _ | evaluated name _ => name

/-- The evaluated attribute of an element with the tag, if it is one. -/
def wanted? (element : String) : Slot → Option Wanted
  | passed .. => none
  | evaluated name target => some ⟨element, name, target⟩

end Slot

/-- The place for a text to be passed on, if there is one. -/
def passedSlots (name : String) (t? : Option Text) : List Slot := t?.toList.map (.passed name)

/-- The place for an evaluated attribute, if there is one. -/
def evaluatedSlots (name : String) (target? : Option Target) : List Slot :=
  target?.toList.map (.evaluated name)

/-- The places for evaluated attributes that there may be, in order. -/
def targetSlots (own : List (String × Option Target)) : List Slot :=
  own.flatMap fun a => evaluatedSlots a.1 a.2

/-- The attribute of a quantity that there may be. -/
def measured (name : String) (q? : Option Quantity) : String × Option Target :=
  (name, q?.map .measure)

/-- The attribute of a list, which an empty list does not have. -/
def listed {α : Type} (name : String) (make : List α → Target) (l : List α) :
    String × Option Target :=
  (name, if l.isEmpty then none else some (make l))

namespace Presentation

/-- The places before those of the element itself. -/
def identitySlots (p : Presentation) : List Slot :=
  passedSlots "id" p.id? ++ passedSlots "class" p.class?

/-- The places after those of the element itself. -/
def styleSlots (p : Presentation) : List Slot :=
  passedSlots "fill" p.fill? ++ passedSlots "stroke" p.stroke? ++
    targetSlots [measured "stroke-width" p.strokeWidth?, measured "opacity" p.opacity?] ++
    passedSlots "transform" p.transform? ++ passedSlots "style" p.style?

end Presentation

theorem names_passedSlots (name : String) (t? : Option Text) :
    ((passedSlots name t?).map Slot.name).Sublist [name] := by
  cases t? with
  | none => exact List.nil_sublist _
  | some t => exact List.Sublist.refl _

theorem names_evaluatedSlots (name : String) (target? : Option Target) :
    ((evaluatedSlots name target?).map Slot.name).Sublist [name] := by
  cases target? with
  | none => exact List.nil_sublist _
  | some target => exact List.Sublist.refl _

theorem names_targetSlots (own : List (String × Option Target)) :
    ((targetSlots own).map Slot.name).Sublist (own.map Prod.fst) := by
  induction own with
  | nil => exact List.Sublist.refl _
  | cons a rest ih =>
    rw [targetSlots, List.flatMap_cons, List.map_append]
    exact (names_evaluatedSlots a.1 a.2).append ih

theorem names_around {own : List Slot} {names : List String}
    (h : (own.map Slot.name).Sublist names) (p : Presentation) :
    ((p.identitySlots ++ own ++ p.styleSlots).map Slot.name).Sublist (namesAround names) := by
  simp only [Presentation.identitySlots, Presentation.styleSlots, List.map_append]
  have hid := names_passedSlots "id" p.id?
  have hclass := names_passedSlots "class" p.class?
  have hstyle := ((((names_passedSlots "fill" p.fill?).append
    (names_passedSlots "stroke" p.stroke?)).append (names_targetSlots
      [measured "stroke-width" p.strokeWidth?, measured "opacity" p.opacity?])).append
    (names_passedSlots "transform" p.transform?)).append (names_passedSlots "style" p.style?)
  exact ((hid.append hclass).append h).append hstyle

/-! ## Elements -/

/-- What the node of an element is made of. -/
structure Plan where
  /-- The tag. -/
  tag : String
  /-- What the element carries besides its own attributes. -/
  common : Presentation
  /-- The attributes that the element may have of its own, in the order in which they are written,
  each with what it is made of, if the element gives it. -/
  own : List (String × Option Target)
  /-- The text in the element. -/
  content? : Option Text := none
  /-- The elements in the element. -/
  children : List Element := []

namespace Plan

/-- The names of the attributes that the element may have, in the order in which they are
written. -/
def names (plan : Plan) : List String := namesAround (plan.own.map Prod.fst)

/-- All places for attributes of the element, in the order in which they are written. -/
def slots (plan : Plan) : List Slot :=
  plan.common.identitySlots ++ targetSlots plan.own ++ plan.common.styleSlots

/-- The evaluated attributes of the element. -/
def wanted (plan : Plan) : List Wanted := plan.slots.filterMap (Slot.wanted? plan.tag)

/-- The places of an element are in the order of its names. -/
theorem names_slots (plan : Plan) : (plan.slots.map Slot.name).Sublist plan.names :=
  names_around (names_targetSlots plan.own) plan.common

end Plan

namespace Element

/-- What the node of the element is made of, by the fields of the element. -/
def plan : Element → Plan
  | rect common x? y? width? height? rx? ry? =>
    { tag := "rect", common
      own := [measured "x" x?, measured "y" y?, measured "width" width?,
        measured "height" height?, measured "rx" rx?, measured "ry" ry?] }
  | circle common cx? cy? r? =>
    { tag := "circle", common, own := [measured "cx" cx?, measured "cy" cy?, measured "r" r?] }
  | ellipse common cx? cy? rx? ry? =>
    { tag := "ellipse", common
      own := [measured "cx" cx?, measured "cy" cy?, measured "rx" rx?, measured "ry" ry?] }
  | line common x1? y1? x2? y2? =>
    { tag := "line", common
      own := [measured "x1" x1?, measured "y1" y1?, measured "x2" x2?, measured "y2" y2?] }
  | polygon common l => { tag := "polygon", common, own := [listed "points" .points l] }
  | polyline common l => { tag := "polyline", common, own := [listed "points" .points l] }
  | path common l => { tag := "path", common, own := [listed "d" .outline l] }
  | text common x? y? dx? dy? fontSize? content? =>
    { tag := "text", common
      own := [measured "x" x?, measured "y" y?, measured "dx" dx?, measured "dy" dy?,
        measured "font-size" fontSize?]
      content? }
  | group common children => { tag := "g", common, own := [], children }

/-- The attributes of an element have names of their own. -/
theorem nodup_names (e : Element) : e.plan.names.Nodup := by
  cases e <;> exact of_decide_eq_true rfl

mutual

/-- The evaluated attributes of the element and of all in it. -/
def wanted : Element → List Wanted
  | .group common children => (plan (.group common children)).wanted ++ wantedEach children
  | e => e.plan.wanted

/-- The evaluated attributes of elements one after the other. -/
def wantedEach : List Element → List Wanted
  | [] => []
  | e :: rest => e.wanted ++ wantedEach rest

end

end Element

/-! ## The attributes of a document -/

namespace Root

/-- The place for the view box. -/
def viewBoxSlots (root : Root) : List Slot :=
  evaluatedSlots "viewBox" (root.viewBox?.map .viewBox)

/-- The places behind it. -/
def laterSlots (root : Root) : List Slot :=
  targetSlots [measured "width" root.width?, measured "height" root.height?] ++
    root.common.styleSlots

/-- All places for attributes of the figure, in the order in which they are written. -/
def slots (root : Root) : List Slot :=
  .passed "xmlns" "http://www.w3.org/2000/svg".toList :: root.common.identitySlots ++
    root.viewBoxSlots ++ root.laterSlots

/-- The places of a figure are in the order of its names. -/
theorem names_slots (root : Root) : (root.slots.map Slot.name).Sublist rootNames := by
  have hown : ((root.viewBoxSlots ++ targetSlots [measured "width" root.width?,
      measured "height" root.height?]).map Slot.name).Sublist ["viewBox", "width", "height"] := by
    rw [List.map_append]
    exact (names_evaluatedSlots "viewBox" _).append (names_targetSlots _)
  have heq : root.slots = .passed "xmlns" "http://www.w3.org/2000/svg".toList ::
      (root.common.identitySlots ++ (root.viewBoxSlots ++
        targetSlots [measured "width" root.width?, measured "height" root.height?]) ++
        root.common.styleSlots) := by
    simp only [slots, laterSlots, List.append_assoc, List.cons_append]
  rw [heq]
  exact (names_around hown root.common).cons_cons "xmlns"

/-- The view box, if the figure has one. -/
def wantedFirst (root : Root) : List Wanted := root.viewBoxSlots.filterMap (Slot.wanted? "svg")

/-- The evaluated attributes but the view box. -/
def wantedLater (root : Root) : List Wanted :=
  root.laterSlots.filterMap (Slot.wanted? "svg") ++ Element.wantedEach root.children

end Root

namespace Document

/-- The evaluated attributes of the document: the view box, then those of the figure and of its
elements, each element before the elements in it. -/
def wanted (document : Document) : List Wanted :=
  document.root.wantedFirst ++ document.root.wantedLater

section Outcomes

variable (document : Document) (options : EvalOptions)

/-- What comes of the view box, over the declared variables. -/
def outcomesFirst : List AttributeOutcome :=
  outcomes document.vars options {} document.root.wantedFirst

/-- The session after the view box. -/
def sessionFirst : Session := sessionPast document.vars options {} document.root.wantedFirst

/-- The frame of the figure, if it has one. -/
def frame? : Option Frame := (document.outcomesFirst options).findSome? AttributeOutcome.frame?

/-- The variables of the figure: those declared, and behind them the width and the height of the
frame, if there is one, under their names, unless these are declared. -/
def figureVars : Variables :=
  match document.frame? options with
  | none => document.vars
  | some f =>
    ⟨document.vars.entries ++
      ([(['v', 'b', 'w'], f.width), (['v', 'b', 'h'], f.height)].filter fun v =>
        (document.vars.get? v.1).isNone).map fun v => (v.1, .ofNumber v.2)⟩

/-- What comes of the other attributes, over the variables of the figure. -/
def outcomesLater : List AttributeOutcome :=
  EquationFigure.outcomes (document.figureVars options) options (document.sessionFirst options)
    document.root.wantedLater

/-- What comes of the evaluated attributes of the document, one after the other. -/
def outcomes : List AttributeOutcome :=
  document.outcomesFirst options ++ document.outcomesLater options

theorem map_toWanted_documentOutcomes :
    (document.outcomes options).map AttributeOutcome.toWanted = document.wanted := by
  rw [outcomes, List.map_append, outcomesFirst, outcomesLater, map_toWanted_outcomes,
    map_toWanted_outcomes, wanted]

end Outcomes

end Document

end EquationFigure
