import ForwardChaining.Notation.Reading

/-!
# Reading as a plain recursion

The tokenizer and the reader once more.  `scan` is a loop that takes one lexeme after another and goes on
behind it.  The reader is a recursive descent with one function for every kind of phrase, each of which
takes its phrase from the front of the tokens and answers with the tokens that are left.  Nothing bounds the
loop or the descent: an answer `none` stands for one that never ends.
-/

namespace ForwardChaining.Unbounded

open Notation

/-- The tokens of a text that begins at a position, or the position at which no lexeme begins. -/
def scan (position : Nat) (s : List Char) : Option (Except Nat (List Token)) :=
  if s.isEmpty then some (.ok [])
  else match lexeme? s with
    | none => some (.error position)
    | some (none, n) => (scan (s := s.drop n)) (position + n)
    | some (some kind, n) => do
      let tokens ← (scan (s := s.drop n)) (position + n)
      return tokens.map ({ kind, text := s.take n, position } :: ·)
partial_fixpoint

/-- What a reader comes to: an answer, an error, or nothing at all. -/
abbrev Outcome : Type → Type := ExceptT ParseError Option

def comesNext (kind : TokenKind) (s : List Token) : Bool := s.head?.any fun token => token.kind = kind

/-- Pass over a token of the given kind. -/
def expect (text : List Char) (kind : TokenKind) : List Token → Outcome (List Token)
  | [] => throw ⟨.endOfInput, text, none⟩
  | token :: rest =>
    if token.kind = kind then return rest
    else throw ⟨.expected kind token.text, text, some token.position⟩

mutual
def term (text : List Char) (s : List Token) : Outcome (Term × List Token) :=
  match s with
  | [] => throw ⟨.endOfInput, text, none⟩
  | token :: rest =>
    match token.kind with
    | .variableName => return (.var (String.ofList (token.text.drop 1)), rest)
    | .quotation => return (.const (.text (String.ofList (unquote token.text))), rest)
    | .identifier =>
      if comesNext .opening rest then do
        let (args, left) ← (arguments (s := rest)) text
        return (.app token.name args, left)
      else return (.const (.text token.name), rest)
    | _ => throw ⟨.expectedTerm token.text, text, some token.position⟩
partial_fixpoint

def arguments (text : List Char) (s : List Token) : Outcome (List Term × List Token) := do
  let inside ← expect text .opening s
  if comesNext .closing inside then return ([], inside.tail)
  else
    let (first, left) ← (term (s := inside)) text
    let (others, left) ← (moreTerms (s := left)) text
    let left ← expect text .closing left
    return (first :: others, left)
partial_fixpoint

/-- Read as many terms as there are commas before them. -/
def moreTerms (text : List Char) (s : List Token) : Outcome (List Term × List Token) :=
  if comesNext .comma s then do
    let (next, left) ← (term (s := s.tail)) text
    let (others, left) ← (moreTerms (s := left)) text
    return (next :: others, left)
  else return ([], s)
partial_fixpoint
end

def atom (text : List Char) : List Token → Outcome (Atom × List Token)
  | [] => throw ⟨.expectedPredicate none, text, none⟩
  | token :: rest =>
    if token.kind = .identifier then
      if comesNext .opening rest then do
        let (args, left) ← arguments text rest
        return (⟨token.name, args⟩, left)
      else return (⟨token.name, []⟩, rest)
    else throw ⟨.expectedPredicate (some token.text), text, some token.position⟩

/-- Read as many atoms as there are commas before them. -/
def moreAtoms (text : List Char) (s : List Token) : Outcome (List Atom × List Token) :=
  if comesNext .comma s then do
    let (next, left) ← atom text s.tail
    let (others, left) ← (moreAtoms (s := left)) text
    return (next :: others, left)
  else return ([], s)
partial_fixpoint

/-- Read the antecedents of a rule, of which there are none if the arrow comes next. -/
def antecedents (text : List Char) (s : List Token) : Outcome (List Atom × List Token) :=
  if comesNext .arrow s then return ([], s)
  else do
    let (first, left) ← atom text s
    let (others, left) ← moreAtoms text left
    return (first :: others, left)

def rule (text : List Char) (s : List Token) : Outcome (Rule × List Token) := do
  let (antecedents, left) ← antecedents text s
  let left ← expect text .arrow left
  let (consequent, left) ← atom text left
  return ({ antecedents, consequent }, left)

def phrase (text : List Char) : (g : Goal) → List Token → Outcome (g.Result × List Token)
  | .term => term text
  | .fact => atom text
  | .rule => rule text

/-- Pass over a dot, if there is one, and make sure that nothing is left. -/
def finish (text : List Char) (s : List Token) : Outcome Unit :=
  match if comesNext .dot s then s.tail else s with
  | [] => return ()
  | token :: _ => throw ⟨.unexpected token.text, text, some token.position⟩

def parseTokens (g : Goal) (text : List Char) (tokens : List Token) :
    Option (Except ParseError g.Result) :=
  ExceptT.run do
    let (result, left) ← phrase text g tokens
    finish text left
    return result

def parse (g : Goal) (text : List Char) : Option (Except ParseError g.Result) := do
  match ← scan 0 text with
  | .error p => return .error ⟨.strayCharacter (text[p]?.getD ' '), text, some p⟩
  | .ok tokens => parseTokens g text tokens

end ForwardChaining.Unbounded
