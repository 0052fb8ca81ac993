import EquationFigure.Table

/-!
# The files that a run sees

A run reads a file and may write one.  It asks for them by path, and what there is is settled
before it starts.

* `Files` — what a run sees of the files.
* `Files.resolve?` — the name of the file that a path leads to, in a directory with files of given
  names.  `resolve?_of_plain` says that a path without slashes is the name itself, and
  `resolve?_here` that a leading `./` makes no difference.
* `Files.ofTable` — what a run sees of a directory.
-/

set_option autoImplicit false

namespace EquationFigure

/-- What a run sees of the files. -/
structure Files where
  /-- The text of the file at a path, if there is one that can be read. -/
  content? : Text → Option Text
  /-- The name of the file at a path, if it can be written. -/
  target? : Text → Option Text

namespace Files

/-! ## Paths -/

/-- The step that stays where it is. -/
def here : Text := ['.']

/-- The step that leads out of a directory. -/
def outwards : Text := ['.', '.']

/-- The steps of a path: the texts between its slashes. -/
def steps (path : Text) : List Text := path.splitOn '/'

/-- The name of what lies at the end of the steps. -/
def nameOf (place : List Text) : Text := Text.joinWith ['/'] place

/-- Whether the steps lead to a directory.  There are no directories but those that hold a file of
the given names. -/
def isDirectory (names : List Text) (place : List Text) : Bool :=
  names.any fun name => place.isPrefixOf (steps name).dropLast

/-- Where steps lead to from a directory.  Every step but the last has to lead to a directory, and
the last one to a file that is there or can be made; no step leads out of the outermost
directory. -/
def walk? (names : List Text) : (place steps : List Text) → Option (List Text)
  | _, [] => none
  | place, [step] =>
    if step = [] ∨ step = here ∨ step = outwards then none
    else if isDirectory names (place ++ [step]) then none
    else some (place ++ [step])
  | place, step :: rest =>
    if step = [] ∨ step = here then walk? names place rest
    else if step = outwards then
      if place = [] then none else walk? names place.dropLast rest
    else if isDirectory names (place ++ [step]) then walk? names (place ++ [step]) rest
    else none

/-- The name of the file that a path leads to.  A path that starts with a slash starts outside. -/
def resolve? (names : List Text) (path : Text) : Option Text :=
  if path.head? = some '/' then none else (walk? names [] (steps path)).map nameOf

/-- A path without slashes is the name of a file, unless it is the name of a directory. -/
theorem resolve?_of_plain {names : List Text} {path : Text} (hs : '/' ∉ path)
    (hn : path ≠ []) (hh : path ≠ here) (ho : path ≠ outwards)
    (hd : isDirectory names [path] = false) : resolve? names path = some path := by
  have hsteps : steps path = [path] := List.splitOn_eq_singleton hs
  have hhead : path.head? ≠ some '/' := fun h => hs (List.mem_of_mem_head? h)
  simp [resolve?, hhead, hsteps, walk?, hn, hh, ho, hd, nameOf, Text.joinWith]

/-- A step that stays where it is makes no difference in front of a path. -/
theorem resolve?_here (names : List Text) {path : Text} (h : path.head? ≠ some '/') :
    resolve? names (here ++ '/' :: path) = resolve? names path := by
  have hsteps : steps (here ++ '/' :: path) = here :: steps path :=
    List.splitOn_append_cons_self_of_not_mem (by decide) path
  have hhead : (here ++ '/' :: path).head? ≠ some '/' := by simp [here]
  have hwalk : walk? names [] (here :: steps path) = walk? names [] (steps path) := by
    cases hp : steps path with
    | nil => exact absurd hp (List.splitOn_ne_nil _ _)
    | cons step rest => simp [walk?]
  rw [resolve?, resolve?, if_neg hhead, if_neg h, hsteps, hwalk]

/-! ## Directories -/

/-- The files of a directory, as a table from their names to their texts. -/
def ofTable (table : Table Text) : Files where
  content? path := (resolve? table.names path).bind table.get?
  target? := resolve? table.names

end Files

end EquationFigure
