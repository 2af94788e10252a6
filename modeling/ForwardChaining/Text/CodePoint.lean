import ForwardChaining.Text.Quoted

/-!
# Texts of code points

A text that is given to the program may hold surrogates, which are code points and no characters: JSON can spell
one by itself. Such a text can be kept, compared and shown, but it has no bytes.
-/

namespace ForwardChaining

/-- A code point: a character, or one of the surrogates, counted from the first of them. -/
inductive CodePoint where
  | char (c : Char)
  | surrogate (n : Fin 0x800)
deriving DecidableEq

/-- A text that may hold surrogates. -/
abbrev CodeText := List CodePoint

namespace CodePoint

/-- The number of a code point. -/
def toNat : CodePoint → Nat
  | char c => c.toNat
  | surrogate n => 0xD800 + n

/-- The code point with a number. -/
def ofNat (n : Nat) : CodePoint :=
  if h : 0xD800 ≤ n ∧ n < 0xE000 then surrogate ⟨n - 0xD800, by omega⟩ else char (Char.ofNat n)

instance : Coe Char CodePoint := ⟨char⟩

/-- The value of a decimal figure. -/
def figure? : CodePoint → Option Nat
  | char c => if c.isDigit then some (c.toNat - 0x30) else none
  | surrogate _ => none

/-- The character that a code point is. -/
def char? : CodePoint → Option Char
  | char c => some c
  | surrogate _ => none

end CodePoint

namespace Text

/-- The characters of a text as code points. -/
def codes (s : String) : CodeText := s.toList.map .char

instance : Coe String CodeText := ⟨codes⟩

@[simp] theorem codes_inj {s t : String} : codes s = codes t ↔ s = t := by
  rw [codes, codes, List.map_inj_right fun _ _ h => CodePoint.char.inj h, String.toList_inj]

/-- The characters of a text without surrogates. -/
def characters? (cs : CodeText) : Option (List Char) := cs.mapM CodePoint.char?

/-- The text of characters that a text without surrogates is. -/
def string? (cs : CodeText) : Option String := (characters? cs).map String.ofList

/-- A text between quotes, its surrogates escaped. -/
def quoteCodes (cs : CodeText) : String :=
  let quote := quoteFor (cs.filterMap CodePoint.char?)
  String.ofList (quote :: cs.flatMap (fun
    | .char c => quoteChar quote c
    | c => '\\' :: 'u' :: hexFigures 4 c.toNat) ++ [quote])

/-- A text as it is printed where surrogates cannot be: they stand there as escapes. -/
def printed (cs : CodeText) : String :=
  String.ofList (cs.flatMap fun
    | .char c => [c]
    | c => '\\' :: 'u' :: hexFigures 4 c.toNat)

end Text

end ForwardChaining
