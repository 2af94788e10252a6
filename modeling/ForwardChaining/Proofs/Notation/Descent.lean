import ForwardChaining.Proofs.Notation.Grammar
import ForwardChaining.Proofs.Unbounded.Notation
import Mathlib.Tactic.Common

/-!
# The machine and the descent

The reader takes one token after another and keeps what is still open in its state.  The recursive descent
takes whole phrases.  From every state in which a phrase is to come, the two go the same way: either the
descent fails and the reader fails from that state with the same error, or the descent takes a phrase from the
front of the tokens, which has a derivation, and the reader comes by the same tokens to the state behind the
phrase.  This is what `Settles` says of a state and an outcome of the descent, and `Settles.bind` puts the
phrases together.
-/

namespace ForwardChaining.Notation

open Unbounded

variable {g : Goal} {α β : Type} {text : List Char} {tokens : List Token}

/-! ### Steps -/

section

variable {state next : State g} {token : Token} {problem : Problem}

theorem State.read_nil (h : state.finish = .error problem) : state.read [] = .error (problem, none) := by
  rw [State.read, h]

theorem State.read_cons_of_ok (h : state.step token = .ok next) :
    state.read (token :: tokens) = next.read tokens := by
  rw [State.read, h]

theorem State.read_cons_of_error (h : state.step token = .error problem) :
    state.read (token :: tokens) = .error (problem, some token.position) := by
  rw [State.read, h]

end

theorem State.read_congr {state state' : State g} (hfinish : state.finish = state'.finish)
    (hstep : ∀ token ∈ tokens.head?, state.step token = state'.step token) :
    state.read tokens = state'.read tokens := by
  cases tokens with
  | nil => rw [State.read, State.read, hfinish]
  | cons token left => rw [State.read, State.read, hstep token rfl]

theorem State.read_name (stage : Stage g) (f : String) (h : ∀ token ∈ tokens.head?, token.kind ≠ .opening) :
    (State.name stage f).read tokens = (State.top (stage.receiveName f)).read tokens := by
  refine State.read_congr rfl fun token hmem => ?_
  have hkind := h token hmem
  simp [State.step]

theorem State.read_inside_name (stage : Stage g) (outer : List Frame) (inner : Frame) (f : String)
    (h : ∀ token ∈ tokens.head?, token.kind ≠ .opening) :
    (State.inside stage outer inner (.name f)).read tokens =
      (State.inside stage outer (inner.push (.const (.text f))) .after).read tokens := by
  refine State.read_congr rfl fun token hmem => ?_
  have hkind := h token hmem
  simp [State.step]

theorem State.read_first (stage : Stage g) (outer : List Frame) (inner : Frame)
    (h : ∀ token ∈ tokens.head?, token.kind ≠ .closing) :
    (State.inside stage outer inner .first).read tokens = (State.inside stage outer inner .next).read tokens := by
  refine State.read_congr rfl fun token hmem => ?_
  have hkind := h token hmem
  simp [State.step]

/-! ### Outcomes -/

/-- The outcome of a descent on some tokens is what the reader does from the state `before` on: it fails
likewise, or it comes to the state `after` with the same tokens left, of which `Reads` holds. -/
inductive Settles (text : List Char) (before : State g) (tokens : List Token) (after : α → State g)
    (Reads : α → List Token → Prop) : Outcome (α × List Token) → Prop where
  | fails (problem : Problem) (position : Option Nat)
      (hread : before.read tokens = .error (problem, position)) :
      Settles text before tokens after Reads (throw ⟨problem, text, position⟩)
  | reads (a : α) (left : List Token) (hread : before.read tokens = (after a).read left)
      (hreads : Reads a left) : Settles text before tokens after Reads (pure (a, left))

namespace Settles

variable {before before' : State g} {left : List Token} {after : α → State g} {after' : β → State g}
  {Reads : α → List Token → Prop} {Reads' : β → List Token → Prop} {outcome : Outcome (α × List Token)}

theorem of_read_eq (h : before.read tokens = before'.read left)
    (hs : Settles text before' left after Reads outcome) : Settles text before tokens after Reads outcome := by
  cases hs with
  | fails problem position hread => exact .fails problem position (h.trans hread)
  | reads a left hread hreads => exact .reads a left (h.trans hread) hreads

theorem bind {f : α × List Token → Outcome (β × List Token)}
    (h : Settles text before tokens after Reads outcome)
    (hf : ∀ a left, Reads a left → Settles text (after a) left after' Reads' (f (a, left))) :
    Settles text before tokens after' Reads' (outcome >>= f) := by
  cases h with
  | fails problem position hread => exact .fails problem position hread
  | reads a left hread hreads => exact (hf a left hreads).of_read_eq hread

theorem expect {kind : TokenKind} {f : List Token → Outcome (α × List Token)}
    (hend : before.finish = .error .endOfInput)
    (hother : ∀ token left, tokens = token :: left → token.kind ≠ kind →
      before.step token = .error (.expected kind token.text))
    (hkind : ∀ (token : Lexeme kind) left, tokens = token.1 :: left →
      Settles text before tokens after Reads (f left)) :
    Settles text before tokens after Reads (Unbounded.expect text kind tokens >>= f) := by
  cases tokens with
  | nil => exact .fails _ _ (State.read_nil hend)
  | cons token left =>
    rw [Unbounded.expect]
    split
    next h => exact hkind ⟨token, h⟩ left rfl
    next h => exact .fails _ _ (State.read_cons_of_error (hother token left rfl h))

end Settles

/-! ### Terms -/

/-- The tokens begin with a phrase that stands for a value, and the others are left. -/
def Phrase.Begins (p : Phrase) (tokens : List Token) (v : p.Value) (left : List Token) : Prop :=
  ∃ d : Derivation p, d.value = v ∧ tokens = d.tokens ++ left

theorem Phrase.Begins.length_le {p : Phrase} {v : p.Value} {left : List Token}
    (h : p.Begins tokens v left) : left.length ≤ tokens.length := by
  obtain ⟨d, -, rfl⟩ := h
  simp

/-- A place where a term is to come. -/
inductive Slot : Goal → Type where
  | whole : Slot .term
  /-- An argument list that is open, behind the given arguments. -/
  | argument {g : Goal} (stage : Stage g) (outer : List Frame) (f : String) (args : List Term) : Slot g

namespace Slot

/-- The state before the term. -/
def before : Slot g → State g
  | whole => .top .term
  | argument stage outer f args => .inside stage outer ⟨f, args.reverse⟩ .next

/-- The state behind an identifier with which the term begins. -/
def name : Slot g → String → State g
  | whole, f' => .name .term f'
  | argument stage outer f args, f' => .inside stage outer ⟨f, args.reverse⟩ (.name f')

/-- The state behind the term. -/
def after : Slot g → Term → State g
  | whole, t => .top (.complete t)
  | argument stage outer f args, t => .inside stage outer ⟨f, (args ++ [t]).reverse⟩ .after

/-- The stage that an argument list of the term is open in. -/
def stage : Slot g → Stage g
  | whole => .term
  | argument stage _ _ _ => stage

/-- The argument lists that an argument list of the term is open in. -/
def frames : Slot g → List Frame
  | whole => []
  | argument _ outer f args => ⟨f, args.reverse⟩ :: outer

variable (slot : Slot g)

theorem finish_before : slot.before.finish = .error .endOfInput := by
  cases slot <;> rfl

theorem step_before_of_term? {token : Token} {t : Term} (h : token.term? = some t) :
    slot.before.step token = .ok (slot.after t) := by
  cases slot <;> simp [before, after, State.step, Stage.step, stepArgument, Frame.push, h]

theorem step_before_name (f : Lexeme .identifier) : slot.before.step f.1 = .ok (slot.name f.1.name) := by
  have h : f.1.term? = none := by simp [Token.term?, f.2]
  cases slot <;> simp [before, name, State.step, Stage.step, stepArgument, h, f.2]

theorem step_before_of_ne {token : Token} (h : token.term? = none) (hkind : token.kind ≠ .identifier) :
    slot.before.step token = .error (.expectedTerm token.text) := by
  cases slot <;> simp [before, State.step, Stage.step, stepArgument, h]

theorem step_name_opening (f : String) (opening : Lexeme .opening) :
    (slot.name f).step opening.1 = .ok (.inside slot.stage slot.frames ⟨f, []⟩ .first) := by
  cases slot <;> simp [name, stage, frames, State.step, opening.2]

theorem read_name (f : String) (h : ∀ token ∈ tokens.head?, token.kind ≠ .opening) :
    (slot.name f).read tokens = (slot.after (.const (.text f))).read tokens := by
  cases slot with
  | whole => exact State.read_name _ f h
  | argument stage outer f' args =>
    simpa [name, after, Frame.push] using State.read_inside_name stage outer _ f h

theorem close (f : String) (args : List Term) :
    State.close slot.stage slot.frames ⟨f, args.reverse⟩ = slot.after (.app f args) := by
  cases slot <;> simp [State.close, stage, frames, after, Frame.push, Frame.atom, Stage.receive, Atom.toTerm]

end Slot

theorem comesNext_eq_false_iff {kind : TokenKind} :
    comesNext kind tokens = false ↔ ∀ token ∈ tokens.head?, token.kind ≠ kind := by
  cases tokens <;> simp [comesNext]

theorem comesNext_eq_true_iff {kind : TokenKind} :
    comesNext kind tokens = true ↔ ∃ (token : Lexeme kind) (left : List Token), tokens = token.1 :: left := by
  cases tokens <;> simp [comesNext]

/-- A loop that reads one more as long as a comma comes next. -/
def ReadsMore (one : List Token → Outcome (α × List Token))
    (more : List Token → Outcome (List α × List Token)) : Prop :=
  ∀ tokens, more tokens =
    if comesNext .comma tokens then do
      let first ← one tokens.tail
      let others ← more first.2
      return (first.1 :: others.1, others.2)
    else return ([], tokens)

theorem readsMore_moreTerms (text : List Char) : ReadsMore (term text) (moreTerms text) := by
  intro tokens
  rw [moreTerms.eq_def]

theorem readsMore_moreAtoms (text : List Char) : ReadsMore (atom text) (moreAtoms text) := by
  intro tokens
  rw [moreAtoms]

/-- **A loop over commas** and the reader agree, from a state behind a first part on.  The states depend on what
was read so far. -/
theorem settles_more {i : Goal} {one : List Token → Outcome (i.Result × List Token)}
    {more : List Token → Outcome (List i.Result × List Token)} (hmore : ReadsMore one more)
    (behind next : List i.Result → State g)
    (hcomma : ∀ as (comma : Lexeme .comma), (behind as).step comma.1 = .ok (next as)) {bound : Nat}
    (hone : ∀ tokens, tokens.length < bound → ∀ as, Settles text (next as) tokens
      (fun a => behind (as ++ [a])) ((Phrase.one i).Begins tokens) (one tokens))
    (htokens : tokens.length ≤ bound) (as : List i.Result) :
    Settles text (behind as) tokens (fun bs => behind (as ++ bs))
      (fun bs left => (Phrase.more i).Begins tokens bs left ∧ ∀ token ∈ left.head?, token.kind ≠ .comma)
      (more tokens) := by
  induction hn : tokens.length using Nat.strongRecOn generalizing tokens as with
  | ind n ih =>
    subst hn
    rw [hmore tokens]
    split
    next h =>
      obtain ⟨comma, left, rfl⟩ := comesNext_eq_true_iff.1 h
      rw [List.length_cons] at htokens
      refine .of_read_eq (State.read_cons_of_ok (hcomma as comma)) ?_
      refine (hone left (by omega) as).bind fun a left' ha => ?_
      have hle := ha.length_le
      refine (ih _ (by simp; omega) (by omega) (as ++ [a]) rfl).bind fun bs left'' hbs => ?_
      obtain ⟨d, rfl, rfl⟩ := ha
      obtain ⟨⟨e, rfl, rfl⟩, hleft⟩ := hbs
      exact .reads _ _ (by simp) ⟨⟨.more comma d e, rfl, by simp [Derivation.tokens]⟩, hleft⟩
    next h =>
      exact .reads _ _ (by simp) ⟨⟨.noMore, rfl, rfl⟩, comesNext_eq_false_iff.1 (by simpa using h)⟩

/-- **Arguments in parentheses**, as far as terms are read likewise. The reader has passed the opening one. -/
theorem settles_arguments (bound : Nat)
    (hterm : ∀ tokens, tokens.length < bound → ∀ slot : Slot g,
      Settles text slot.before tokens slot.after ((Phrase.one .term).Begins tokens) (term text tokens))
    (htokens : tokens.length < bound) (opening : Lexeme .opening) (stage : Stage g) (outer : List Frame)
    (f : Lexeme .identifier) :
    Settles text (.inside stage outer ⟨f.1.name, []⟩ .first) tokens
      (fun args => State.close stage outer ⟨f.1.name, args.reverse⟩)
      (fun args => Phrase.application.Begins (f.1 :: opening.1 :: tokens) ⟨f.1.name, args⟩)
      (arguments text (opening.1 :: tokens)) := by
  rw [arguments]
  simp only [Unbounded.expect, opening.2, if_true, pure_bind]
  split
  next h =>
    obtain ⟨closing, left, rfl⟩ := comesNext_eq_true_iff.1 h
    have hstep : (State.inside stage outer ⟨f.1.name, []⟩ .first).step closing.1 =
        .ok (.close stage outer ⟨f.1.name, []⟩) := by
      simp [State.step, closing.2]
    exact .reads _ _ (State.read_cons_of_ok hstep) ⟨.application f opening .empty closing, rfl, rfl⟩
  next h =>
    rw [Bool.not_eq_true, comesNext_eq_false_iff] at h
    refine .of_read_eq (State.read_first _ _ _ h) ?_
    refine (hterm tokens htokens (.argument stage outer f.1.name [])).bind fun a left ha => ?_
    have hle := ha.length_le
    refine (settles_more (i := .term) (readsMore_moreTerms text)
      (fun args => .inside stage outer ⟨f.1.name, args.reverse⟩ .after)
      (fun args => .inside stage outer ⟨f.1.name, args.reverse⟩ .next)
      ?_ ?_ (Nat.le_of_lt (Nat.lt_of_le_of_lt hle htokens)) [a]).bind fun as left' has => ?_
    · intro as comma
      simp [State.step, stepAfter, comma.2]
    · intro tokens hlt as
      exact hterm tokens hlt (.argument stage outer f.1.name as)
    · obtain ⟨d, rfl, rfl⟩ := ha
      obtain ⟨⟨e, rfl, rfl⟩, hcomma⟩ := has
      refine .expect rfl ?_ ?_
      · rintro token left rfl hkind
        have : token.kind ≠ .comma := hcomma token rfl
        simp [State.step, stepAfter]
      · rintro closing left rfl
        have hstep (inner : Frame) : (State.inside stage outer inner .after).step closing.1 =
            .ok (.close stage outer inner) := by
          simp [State.step, stepAfter, closing.2]
        refine .reads _ _ (State.read_cons_of_ok (hstep _)) ?_
        exact ⟨.application f opening (.list d e) closing, rfl, by simp [Derivation.tokens]⟩

/-- **The descent on a term** and the reader agree, wherever a term is to come. -/
theorem settles_term (slot : Slot g) :
    Settles text slot.before tokens slot.after ((Phrase.one .term).Begins tokens) (term text tokens) := by
  -- Arguments are terms behind the identifier, and every slot opens slots of its own for them.
  induction hn : tokens.length using Nat.strongRecOn generalizing tokens slot with
  | ind n ih =>
    subst hn
    rw [term.eq_def]
    cases tokens with
    | nil => exact .fails _ _ (State.read_nil slot.finish_before)
    | cons token left =>
      dsimp only
      split
      next hkind =>
        have hterm : token.term? = some (.var (String.ofList (token.text.drop 1))) := by
          simp [Token.term?, hkind]
        exact .reads _ _ (State.read_cons_of_ok (slot.step_before_of_term? hterm))
          ⟨.variableName ⟨token, hkind⟩, rfl, rfl⟩
      next hkind =>
        have hterm : token.term? = some (.const (.text (String.ofList (unquote token.text)))) := by
          simp [Token.term?, hkind]
        exact .reads _ _ (State.read_cons_of_ok (slot.step_before_of_term? hterm))
          ⟨.quotation ⟨token, hkind⟩, rfl, rfl⟩
      next hkind =>
        let f : Lexeme .identifier := ⟨token, hkind⟩
        refine .of_read_eq (State.read_cons_of_ok (slot.step_before_name f)) ?_
        split
        next h =>
          obtain ⟨opening, inside, rfl⟩ := comesNext_eq_true_iff.1 h
          refine .of_read_eq (State.read_cons_of_ok (slot.step_name_opening f.1.name opening)) ?_
          refine (settles_arguments (inside.length + 1) ?_ (by simp) opening slot.stage slot.frames
            f).bind fun args left hargs => ?_
          · intro tokens hlt slot
            exact ih _ (by simp; omega) slot rfl
          · obtain ⟨d, hd, htokens⟩ := hargs
            rw [Slot.close]
            refine .reads _ _ rfl ⟨.compound d, ?_, htokens⟩
            rw [Derivation.value, hd]
            rfl
        next h =>
          rw [Bool.not_eq_true, comesNext_eq_false_iff] at h
          exact .reads _ _ (slot.read_name f.1.name h) ⟨.constant f, rfl, rfl⟩
      next hvar hquote hname =>
        have hterm : token.term? = none := by
          simp [Token.term?]
        exact .fails _ _ (State.read_cons_of_error (slot.step_before_of_ne hterm hname))

/-! ### Atoms, rules and texts -/

/-- An atom is to come outside all parentheses, unless the tokens have something else for the stage. -/
structure Stage.Awaits (stage : Stage g) (tokens : List Token) : Prop where
  finish : stage.finish = .error (.expectedPredicate none)
  step_name : ∀ f : Lexeme .identifier, stage.step f.1 = .ok (.name stage f.1.name)
  step_of_ne : ∀ token ∈ tokens.head?, token.kind ≠ .identifier →
    stage.step token = .error (.expectedPredicate (some token.text))
  receiveName : ∀ f, stage.receiveName f = stage.receive ⟨f, []⟩

theorem settles_atom {stage : Stage g} (hstage : stage.Awaits tokens) :
    Settles text (.top stage) tokens (fun a => .top (stage.receive a)) ((Phrase.one .fact).Begins tokens)
      (atom text tokens) := by
  cases tokens with
  | nil => exact .fails _ _ (State.read_nil hstage.finish)
  | cons token left =>
    rw [atom]
    split
    next hkind =>
      let f : Lexeme .identifier := ⟨token, hkind⟩
      refine .of_read_eq (State.read_cons_of_ok (hstage.step_name f)) ?_
      split
      next h =>
        obtain ⟨opening, inside, rfl⟩ := comesNext_eq_true_iff.1 h
        have hstep : (State.name stage f.1.name).step opening.1 =
            .ok (.inside stage [] ⟨f.1.name, []⟩ .first) := by
          simp [State.step, opening.2]
        refine .of_read_eq (State.read_cons_of_ok hstep) ?_
        refine (settles_arguments _ (fun tokens _ slot => settles_term slot) (Nat.lt_succ_self _) opening
          stage [] f).bind fun args left hargs => ?_
        obtain ⟨d, hd, htokens⟩ := hargs
        have hclose : State.close stage [] ⟨f.1.name, args.reverse⟩ =
            .top (stage.receive ⟨f.1.name, args⟩) := by
          simp [State.close, Frame.atom]
        exact .reads _ _ (by rw [hclose]) ⟨.applied d, hd, htokens⟩
      next h =>
        rw [Bool.not_eq_true, comesNext_eq_false_iff] at h
        refine .reads _ _ ?_ ⟨.bare f, rfl, rfl⟩
        rw [State.read_name stage f.1.name h, hstage.receiveName]
    next hkind => exact .fails _ _ (State.read_cons_of_error (hstage.step_of_ne token rfl hkind))

theorem awaits_fact : Stage.fact.Awaits tokens where
  finish := rfl
  step_name f := by simp [Stage.step, f.2]
  step_of_ne token _ h := by simp [Stage.step]
  receiveName _ := rfl

theorem awaits_antecedent (before : List Atom) : (Stage.antecedent before).Awaits tokens where
  finish := rfl
  step_name f := by simp [Stage.step, f.2]
  step_of_ne token _ h := by simp [Stage.step]
  receiveName _ := rfl

theorem awaits_consequent (antecedents : List Atom) : (Stage.consequent antecedents).Awaits tokens where
  finish := rfl
  step_name f := by simp [Stage.step, f.2]
  step_of_ne token _ h := by simp [Stage.step]
  receiveName _ := rfl

theorem awaits_ruleStart (h : ∀ token ∈ tokens.head?, token.kind ≠ .arrow) : Stage.ruleStart.Awaits tokens where
  finish := rfl
  step_name f := by simp [Stage.step, f.2]
  step_of_ne token hmem hkind := by
    have := h token hmem
    simp [Stage.step]
  receiveName _ := rfl

theorem settles_consequent (antecedents : Derivation (.listed .fact)) (arrow : Lexeme .arrow) :
    Settles text (.top (.consequent antecedents.value)) tokens (fun r => .top (.complete r))
      ((Phrase.one .rule).Begins (antecedents.tokens ++ arrow.1 :: tokens))
      (atom text tokens >>= fun c => pure ({ antecedents := antecedents.value, consequent := c.1 }, c.2)) := by
  refine (settles_atom (awaits_consequent _)).bind fun c left hc => ?_
  obtain ⟨d, rfl, rfl⟩ := hc
  exact .reads _ _ rfl ⟨.rule antecedents arrow d, rfl, by simp [Derivation.tokens]⟩

theorem settles_rule : Settles text (.top .ruleStart) tokens (fun r => .top (.complete r))
    ((Phrase.one .rule).Begins tokens) (Unbounded.rule text tokens) := by
  rw [Unbounded.rule, antecedents]
  split
  next h =>
    obtain ⟨arrow, left, rfl⟩ := comesNext_eq_true_iff.1 h
    simp only [pure_bind, Unbounded.expect, arrow.2, if_true]
    have hstep : (State.top .ruleStart).step arrow.1 = .ok (.top (.consequent [])) := by
      simp [State.step, Stage.step, arrow.2]
    exact .of_read_eq (State.read_cons_of_ok hstep) (settles_consequent .empty arrow)
  next h =>
    rw [Bool.not_eq_true, comesNext_eq_false_iff] at h
    rw [bind_assoc]
    refine (settles_atom (awaits_ruleStart h)).bind fun a left ha => ?_
    rw [bind_assoc]
    refine (settles_more (i := .fact) (readsMore_moreAtoms text)
      (fun as => .top (.arrow as)) (fun as => .top (.antecedent as)) ?_ ?_ (Nat.le_refl _)
      [a]).bind fun as left' has => ?_
    · intro as comma
      simp [State.step, Stage.step, comma.2]
    · intro tokens _ as
      exact settles_atom (awaits_antecedent as)
    · obtain ⟨d, rfl, rfl⟩ := ha
      obtain ⟨⟨e, rfl, rfl⟩, hcomma⟩ := has
      refine .expect rfl ?_ ?_
      · rintro token left rfl hkind
        have : token.kind ≠ .comma := hcomma token rfl
        simp [State.step, Stage.step]
      · rintro arrow left rfl
        have hstep (as : List Atom) : (State.top (.arrow as)).step arrow.1 = .ok (.top (.consequent as)) := by
          simp [State.step, Stage.step, arrow.2]
        refine .of_read_eq (State.read_cons_of_ok (hstep _)) ?_
        simpa [Derivation.tokens, Derivation.value] using settles_consequent (.list d e) arrow

theorem settles_phrase : Settles text (State.start g) tokens (fun v => .top (.complete v))
    ((Phrase.one g).Begins tokens) (phrase text g tokens) := by
  cases g with
  | term => exact settles_term .whole
  | fact => exact settles_atom awaits_fact
  | rule => exact settles_rule

theorem finish_cases (d : Derivation (.one g)) (text : List Char) (left : List Token) :
    (∃ e : Derivation (.ended g), e.tokens = d.tokens ++ left ∧ e.value = d.value ∧
      (State.top (.complete d.value)).read left = .ok d.value ∧ finish text left = pure ()) ∨
    ∃ problem position, (State.top (.complete d.value)).read left = .error (problem, position) ∧
      finish text left = throw ⟨problem, text, position⟩ := by
  cases left with
  | nil => exact .inl ⟨.undotted d, by simp [Derivation.tokens], rfl, rfl, rfl⟩
  | cons token left =>
    by_cases hdot : token.kind = .dot
    · have hstep : (State.top (.complete d.value)).step token = .ok (.top (.closed d.value)) := by
        simp [State.step, Stage.step, hdot]
      rw [State.read_cons_of_ok hstep]
      cases left with
      | nil => exact .inl ⟨.dotted d ⟨token, hdot⟩, rfl, rfl, rfl, by simp [finish, comesNext, hdot]⟩
      | cons other left =>
        exact .inr ⟨.unexpected other.text, some other.position, rfl, by simp [finish, comesNext, hdot]⟩
    · have hstep : (State.top (.complete d.value)).step token = .error (.unexpected token.text) := by
        simp [State.step, Stage.step]
      exact .inr ⟨.unexpected token.text, some token.position, State.read_cons_of_error hstep,
        by simp [finish, comesNext, hdot]⟩

/-- **Reading a whole text** ends in one of two ways, for the reader and for the descent alike: with what a
derivation of the tokens stands for, or with an error. -/
theorem readTokens_cases (text : List Char) (tokens : List Token) :
    (∃ d : Derivation (.ended g), d.tokens = tokens ∧ readTokens g tokens = .ok d.value ∧
      Unbounded.parseTokens g text tokens = some (.ok d.value)) ∨
    ∃ problem position, readTokens g tokens = .error (problem, position) ∧
      Unbounded.parseTokens g text tokens = some (.error ⟨problem, text, position⟩) := by
  have h : Settles text (State.start g) tokens _ _ (phrase text g tokens) := settles_phrase
  rw [readTokens, Unbounded.parseTokens]
  generalize phrase text g tokens = outcome at h ⊢
  cases h with
  | fails problem position hread => exact .inr ⟨problem, position, hread, rfl⟩
  | reads v left hread hbegins =>
    obtain ⟨d, rfl, rfl⟩ := hbegins
    rw [hread]
    obtain ⟨e, htokens, hvalue, hread', hfinish⟩ | ⟨problem, position, hread', hfinish⟩ :=
      finish_cases d text left
    · refine .inl ⟨e, htokens, by rw [hread', hvalue], ?_⟩
      simp only [pure_bind, hfinish, hvalue]
      rfl
    · refine .inr ⟨problem, position, hread', ?_⟩
      simp only [pure_bind, hfinish]
      rfl

theorem unbounded_parseTokens_eq (text : List Char) (tokens : List Token) :
    Unbounded.parseTokens g text tokens = some (parseTokens g text tokens) := by
  rw [parseTokens]
  obtain ⟨d, -, hread, hparse⟩ | ⟨problem, position, hread, hparse⟩ := readTokens_cases (g := g) text tokens
  · rw [hparse, hread]
  · rw [hparse, hread]

theorem exists_derivation_of_parseTokens {v : g.Result} (h : parseTokens g text tokens = .ok v) :
    ∃ d : Derivation (.ended g), d.tokens = tokens ∧ d.value = v := by
  rw [parseTokens] at h
  obtain ⟨d, htokens, hread, -⟩ | ⟨problem, position, hread, -⟩ := readTokens_cases (g := g) text tokens
  · rw [hread] at h
    exact ⟨d, htokens, Except.ok.inj h⟩
  · rw [hread] at h
    cases h

end ForwardChaining.Notation
