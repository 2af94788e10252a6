import ForwardChaining.Datum
import ForwardChaining.Store

/-!
# Arguments of any kind

Terms, rules and facts are also built from arguments that nobody has checked. An object is such an
argument. Each function that takes one says which kind it needs, and refuses every other with a message
that names the kind and shows the object; it never looks at an object's parts before its kind is right.
-/

namespace ForwardChaining

/-- An argument of any kind. -/
inductive Object where
  | value (v : Value)
  | term (t : Term)
  | rule (r : Rule)
  | list (items : List Object)
  | map (entries : List (CodeText × Datum))

instance : Inhabited Object := ⟨.value .null⟩

/-- An argument of the wrong kind. -/
inductive Mismatch where
  | functorNotText (got : Object)
  | argumentsNotList (got : Object)
  | argumentNotTerm (got : Object)
  | antecedentsNotList (got : Object)
  | notPredicate (got : Object)
  | factNotPredicate (got : Object)
  | notRule (got : Object)
  /-- What is to be read has no length. -/
  | textNotMeasured (got : Object)
  /-- What is to be read has a length, but is no text. -/
  | textNotScanned (got : Object)
  /-- What is to be cut into lines is no text. -/
  | textNotCut (got : Object)

instance : Inhabited Mismatch := ⟨.notRule default⟩

namespace Object

/-- A text as an argument. -/
instance : Coe String Object := ⟨fun text => value (.text text)⟩

/-- The name of an object's kind. -/
def kind : Object → String
  | value (.text _) => "<class 'str'>"
  | value (.int _) => "<class 'int'>"
  | value (.real _) => "<class 'float'>"
  | value (.bool _) => "<class 'bool'>"
  | value .null => "<class 'NoneType'>"
  | term (.var _) => "<class 'chainlog.terms.Variable'>"
  | term (.const _) => "<class 'chainlog.terms.Constant'>"
  | term (.app ..) => "<class 'chainlog.terms.Predicate'>"
  | rule _ => "<class 'chainlog.knowledge.Rule'>"
  | list _ => "<class 'list'>"
  | map _ => "<class 'dict'>"

/-- The name of an object's kind by itself. -/
def kindName : Object → String
  | value (.text _) => "str"
  | value (.int _) => "int"
  | value (.real _) => "float"
  | value (.bool _) => "bool"
  | value .null => "NoneType"
  | term (.var _) => "Variable"
  | term (.const _) => "Constant"
  | term (.app ..) => "Predicate"
  | rule _ => "Rule"
  | list _ => "list"
  | map _ => "dict"

mutual
/-- The text that a message shows for an object. -/
def shown : Object → String
  | value v => v.shown
  | term t => t.shown
  | rule r => r.shown
  | list items => "[" ++ commaSeparated (shownAll items) ++ "]"
  | map entries => (Datum.map entries).shown

/-- The texts that a message shows for a list of objects. -/
def shownAll : List Object → List String
  | [] => []
  | x :: xs => x.shown :: shownAll xs
end

/-- The display of an object. -/
def display : Object → String
  | value v => v.display
  | term t => t.display
  | rule r => r.display
  | x => x.shown

/-- Objects are equal if they are equal values, terms or rules; objects of different kinds never are. -/
instance : BEq Object where
  beq
    | value a, value b => a == b
    | term x, term y => x == y
    | rule r, rule s => r == s
    | _, _ => false

/-- The term that an object is. -/
def term? : Object → Option Term
  | term t => some t
  | _ => none

/-- The atom that an object is. -/
def atom? : Object → Option Atom
  | term (.app f args) => some ⟨f, args⟩
  | _ => none

/-- The objects as terms, or the first that is none. -/
def terms : List Object → Except Mismatch (List Term)
  | [] => .ok []
  | x :: xs =>
    match x.term? with
    | some t => (terms xs).map (t :: ·)
    | none => .error (.argumentNotTerm x)

/-- A functor applied to arguments. -/
def predicate (functor args : Object) : Except Mismatch Term :=
  match functor, args with
  | value (.text f), list items => (terms items).map (.app f ·)
  | value (.text _), x => .error (.argumentsNotList x)
  | x, _ => .error (.functorNotText x)

/-- The objects as atoms, or the first that is none. -/
def atoms : List Object → Except Mismatch (List Atom)
  | [] => .ok []
  | x :: xs =>
    match x.atom? with
    | some a => (atoms xs).map (a :: ·)
    | none => .error (.notPredicate x)

/-- A rule. -/
def implication (antecedents consequent : Object) (name : String) : Except Mismatch Rule :=
  match antecedents with
  | list items =>
    match atoms items with
    | .error e => .error e
    | .ok antecedents =>
      match consequent.atom? with
      | some consequent => .ok { antecedents, consequent, name }
      | none => .error (.notPredicate consequent)
  | x => .error (.antecedentsNotList x)

/-- An object as a fact; whether it is ground is another matter. -/
def asFact (x : Object) : Except Mismatch Atom :=
  match x.atom? with
  | some a => .ok a
  | none => .error (.factNotPredicate x)

/-- An object as a rule. -/
def asRule : Object → Except Mismatch Rule
  | rule r => .ok r
  | x => .error (.notRule x)

/-- An object as a text to be read. Nothing at all, in a list or a map, reads like the empty text. -/
def asText : Object → Except Mismatch String
  | value (.text s) => .ok s
  | list [] => .ok ""
  | list items => .error (.textNotScanned (list items))
  | map [] => .ok ""
  | map entries => .error (.textNotScanned (map entries))
  | x => .error (.textNotMeasured x)

/-- An object as a text to be cut into lines. -/
def asLines : Object → Except Mismatch String
  | value (.text s) => .ok s
  | x => .error (.textNotCut x)

/-- A term stays as it is, and a bare value becomes a constant. -/
def wrapped : Object → Object
  | value v => term (.const v)
  | x => x

end Object

namespace Mismatch

/-- The message for an argument of the wrong kind. -/
def message : Mismatch → String
  | functorNotText x => "Predicate functor must be a string, got " ++ x.kind ++ ": " ++ x.shown
  | argumentsNotList x => "Predicate args must be list or tuple, got " ++ x.kind
  | argumentNotTerm x => "Predicate argument must be a Term, got " ++ x.kind ++ ": " ++ x.shown
  | antecedentsNotList x => "Rule antecedents must be list or tuple, got " ++ x.kind
  | notPredicate x => "Rule terms must be predicates, got " ++ x.kind ++ ": " ++ x.shown
  | factNotPredicate x => "Facts must be predicates, got " ++ x.kind ++ ": " ++ x.shown
  | notRule x => "Expected a Rule, got " ++ x.kind ++ ": " ++ x.shown
  | textNotMeasured x => "object of type '" ++ x.kindName ++ "' has no len()"
  | textNotScanned x => "expected string or bytes-like object, got '" ++ x.kindName ++ "'"
  | textNotCut x => "'" ++ x.kindName ++ "' object has no attribute 'splitlines'"

end Mismatch

/-- Why a fact was not stored. -/
inductive Refusal where
  | mismatch (m : Mismatch)
  | notGround (a : Atom)

/-- The message for a fact that was not stored. -/
def Refusal.message : Refusal → String
  | mismatch m => m.message
  | notGround a => "Cannot add non-ground fact: " ++ a.display

/-- The store with an object added as a fact. -/
def FactStore.addObject (s : FactStore) (x : Object) : Except Refusal FactStore :=
  match x.asFact with
  | .error m => .error (.mismatch m)
  | .ok a =>
    match s.add? a with
    | some s' => .ok s'
    | none => .error (.notGround a)

/-- The store of the objects, or the reason why the first that is refused is. -/
def FactStore.ofObjects (xs : List Object) : Except Refusal FactStore := xs.foldlM addObject .empty

/-- The rules that the objects are, or the first that is none. -/
def RuleStore.ofObjects (xs : List Object) : Except Mismatch RuleStore :=
  xs.foldlM (fun s x => x.asRule.map s.insert) .empty

end ForwardChaining
