import ForwardChaining.Rule

/-!
# Displays

The display of a term is the notation that a knowledge base is written in: a question mark before the
name of a variable, the arguments of a functor in parentheses, nothing behind a functor that has no
arguments. The display of a rule sets the antecedents before an arrow.

Messages about ill-formed arguments need to tell apart what looks alike in a display, and show the
constructors and the quotes as well (`Term.shown`).
-/

namespace ForwardChaining

/-- The texts in order, with a comma and a space between neighbours. -/
def commaSeparated : List String → String
  | [] => ""
  | [s] => s
  | s :: t :: rest => s ++ ", " ++ commaSeparated (t :: rest)

/-- The texts in parentheses; a single one is followed by a comma. -/
def tupled : List String → String
  | [s] => "(" ++ s ++ ",)"
  | items => "(" ++ commaSeparated items ++ ")"

namespace Term

mutual
/-- The display of a term. -/
def display : Term → String
  | .var v => "?" ++ v
  | .const c => c.display
  | .app f args =>
    if args.isEmpty then f else f ++ "(" ++ commaSeparated (displayAll args) ++ ")"

/-- The displays of a list of terms. -/
def displayAll : List Term → List String
  | [] => []
  | t :: ts => t.display :: displayAll ts
end

mutual
/-- The term with its constructors and its quotes. -/
def shown : Term → String
  | .var v => "Variable(name=" ++ Text.quote v ++ ")"
  | .const c => "Constant(value=" ++ c.shown ++ ")"
  | .app f args =>
    "Predicate(functor=" ++ Text.quote f ++ ", args=" ++ tupled (shownAll args) ++ ")"

/-- The terms with their constructors and quotes. -/
def shownAll : List Term → List String
  | [] => []
  | t :: ts => t.shown :: shownAll ts
end

theorem displayAll_eq_map (ts : List Term) : displayAll ts = ts.map display := by
  induction ts with
  | nil => rfl
  | cons t ts ih => simp [displayAll, ih]

end Term

/-- The display of an atom. -/
def Atom.display (a : Atom) : String := a.toTerm.display

namespace Rule

/-- The display of a rule. -/
def display (r : Rule) : String :=
  let body := commaSeparated (r.antecedents.map Atom.display)
  if body = "" then "=> " ++ r.consequent.display else body ++ " => " ++ r.consequent.display

/-- The rule with its constructors and its quotes. -/
def shown (r : Rule) : String :=
  "Rule(antecedents=" ++ tupled (r.antecedents.map fun a => a.toTerm.shown) ++ ", consequent="
    ++ r.consequent.toTerm.shown ++ ", name=" ++ Text.quote r.name ++ ")"

end Rule

end ForwardChaining
