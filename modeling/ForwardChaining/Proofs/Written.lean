import ForwardChaining.Proofs.Engine.Stores
import ForwardChaining.Proofs.Notation.Lines
import ForwardChaining.Proofs.Notation.Program
import ForwardChaining.Proofs.Saturation.Stages
import ForwardChaining.Proofs.Subterms

/-!
# Written knowledge

A program is cut at every line end before any of it is read, and what is read has no other characters than its
line.  So its names and its constants are texts without line ends (`Term.IsWritten`), whatever is escaped in a
quotation:

* `mem_of_mem_token`: the characters of a token are those of the line.
* `Derivation.isWritten`: what a derivation stands for is written if its tokens have no line end.
* `isWritten_of_statement?`: so a line states nothing but what is written.

Written knowledge stays written when rules are applied to it (`Rule.Yields.isWritten`), and so an engine that is
given nothing else infers nothing else (`Engine.IsWritten.infer`).  Its display is part of one line, and as texts
equal only themselves, what is written is equal to nothing but itself (`Term.IsWritten.eq_of_equiv`).
-/

namespace ForwardChaining

/-- All names are texts without line ends, and so are the constants. -/
inductive Term.IsWritten : Term → Prop where
  | var {v : String} (hv : IsInline v) : IsWritten (.var v)
  | const {s : String} (hs : IsInline s) : IsWritten (.const (.text s))
  | app {f : String} {args : List Term} (hf : IsInline f) (hargs : ∀ t ∈ args, IsWritten t) : IsWritten (.app f args)

def Atom.IsWritten (a : Atom) : Prop := a.toTerm.IsWritten

structure Rule.IsWritten (r : Rule) : Prop where
  antecedents : ∀ a ∈ r.antecedents, a.IsWritten
  consequent : r.consequent.IsWritten

variable {t u x y : Term} {a b : Atom} {σ : String → Term}

/-! ### Terms -/

theorem Term.IsWritten.isInline (h : t.IsWritten) : IsInline t.display := by
  induction h with
  | var hv => exact isInline_append (by decide) hv
  | const hs => exact hs
  | app hf _ ih => exact isInline_app hf ih

theorem Atom.IsWritten.isInline (h : a.IsWritten) : IsInline a.display := Term.IsWritten.isInline h

/-- **What is written is equal to itself only.** -/
theorem Term.IsWritten.eq_of_equiv (hx : x.IsWritten) (h : x ≈ y) : x = y := by
  induction h using equiv_rec with
  | var v => rfl
  | const c d h =>
    cases hx with
    | const hs =>
      rw [equiv_iff_beq, beq_eq_same, same] at h
      cases d with
      | text s =>
        rw [Value.same, decide_eq_true_eq] at h
        rw [h]
      | _ => exact absurd h (by simp [Value.same, Value.place?])
  | app f xs ys _ hxy =>
    cases hx with
    | app _ hargs =>
      have hlist : xs = ys := by
        clear * - hargs hxy
        induction hxy with
        | nil => rfl
        | cons hx _ ih =>
          obtain ⟨ht, hts⟩ := List.forall_mem_cons.mp hargs
          obtain ⟨_, hx⟩ := hx
          rw [hx ht, ih hts]
      rw [hlist]

theorem Atom.IsWritten.eq_of_equiv (ha : a.IsWritten) (h : a ≈ b) : a = b :=
  toTerm_injective (Term.IsWritten.eq_of_equiv ha h)

theorem Term.IsWritten.of_mem_subterms (ht : t.IsWritten) (h : u ∈ t.subterms) : u.IsWritten := by
  induction ht with
  | var hv =>
    rw [mem_subterms_var.mp h]
    exact .var hv
  | const hs =>
    rw [mem_subterms_const.mp h]
    exact .const hs
  | app hf hargs ih =>
    rcases mem_subterms_app.mp h with rfl | ⟨t, ht, h⟩
    · exact .app hf hargs
    · exact ih t ht h

theorem Term.IsWritten.bind (ht : t.IsWritten) (h : ∀ v ∈ t.vars, (σ v).IsWritten) : (t.bind σ).IsWritten := by
  induction ht with
  | @var v _ => exact h v (by simp)
  | const hs => exact .const hs
  | app hf _ ih =>
    rw [bind_app]
    refine .app hf fun u hu => ?_
    obtain ⟨t, ht, rfl⟩ := List.mem_map.mp hu
    exact ih t ht fun v hv => h v (mem_vars_app.mpr ⟨t, ht, hv⟩)

/-! ### What rules yield -/

/-- **Written rules yield written atoms** from such atoms. -/
theorem Rule.Yields.isWritten {r : Rule} {K : Roster Atom} (hr : r.IsWritten) (hK : ∀ b ∈ K.items, b.IsWritten)
    (h : r.Yields K.toSet a) : a.IsWritten := by
  obtain ⟨σ, hσ, hants, hground, hcons⟩ := h
  have hbound : ∀ v ∈ r.consequent.vars, (σ v).IsWritten := by
    intro v hv
    have hantecedent : v ∈ r.antecedentVars := by
      by_contra hfree
      refine Term.isGround_iff.mp hground v ?_
      rw [Atom.toTerm_bind, Term.mem_vars_bind]
      exact ⟨v, hv, by rw [hσ.kept v hfree]; simp⟩
    obtain ⟨b, hb, hvb⟩ := Rule.mem_antecedentVars.mp hantecedent
    obtain ⟨f, hf, hfb⟩ := Roster.contains_iff.mp (hants b hb)
    obtain rfl := (hK f hf).eq_of_equiv hfb
    refine Term.IsWritten.of_mem_subterms (hK _ hf) ?_
    rw [Atom.toTerm_bind]
    exact Term.mem_subterms_bind hvb
  have hwritten : (r.consequent.bind σ).IsWritten := by
    rw [Atom.IsWritten, Atom.toTerm_bind]
    exact Term.IsWritten.bind hr.consequent hbound
  exact hwritten.eq_of_equiv hcons ▸ hwritten

theorem Saturates.isWritten {rules : List Rule} {left number : Nat} {known : Roster Atom} {run : Run}
    (hrules : ∀ r ∈ rules, r.IsWritten) (h : Saturates rules left number known run) (hground : known.Ground)
    (hknown : ∀ b ∈ known.items, b.IsWritten) : ∀ a ∈ run.known.items, a.IsWritten := by
  intro a ha
  rw [h.items, List.mem_append] at ha
  rcases ha with ha | ha
  · exact hknown a ha
  · exact h.forall_newFacts (fun _ => id) (fun r hr K hK b hb => hb.isWritten (hrules r hr) hK) hground hknown a ha

/-! ### What is read -/

namespace Text

/-- **The lines of a text have no line ends in them.** -/
theorem not_isLineEnd_of_mem_lines (cs : List Char) :
    ∀ line ∈ lines cs, ∀ c ∈ line, isLineEnd c = false := by
  induction cs using lines.induct with
  | case1 => simp [lines]
  | case2 rest ih =>
    rw [lines, List.forall_mem_cons]
    exact ⟨by simp, ih⟩
  | case3 c rest hnot hc ih =>
    rw [lines, if_pos hc, List.forall_mem_cons]
    · exact ⟨by simp, ih⟩
    · exact hnot
  | case4 c rest hnot hc hnil ih =>
    rw [lines_cons_of_eq_nil (by simpa using hc) hnil]
    simpa using hc
  | case5 c rest hnot hc line more hcons ih =>
    rw [hcons, List.forall_mem_cons] at ih
    rw [lines_cons_of_eq_cons (by simpa using hc) hcons, List.forall_mem_cons, List.forall_mem_cons]
    exact ⟨⟨by simpa using hc, ih.1⟩, ih.2⟩

end Text

namespace Notation

variable {cs : List Char} {c : Char}

/-- **A token has no characters but those of the text.** -/
theorem mem_of_mem_token {skip position : Nat} {tokens : List Token} (h : scanFrom skip position cs = .ok tokens) :
    ∀ token ∈ tokens, ∀ c ∈ token.text, c ∈ cs := by
  induction cs generalizing skip position tokens with
  | nil =>
    cases skip with
    | zero => cases h; simp
    | succ skip => cases h; simp
  | cons first rest ih =>
    intro token htoken c hc
    cases skip with
    | succ skip =>
      rw [scanFrom] at h
      exact List.mem_cons_of_mem _ (ih h token htoken c hc)
    | zero =>
      rw [scanFrom] at h
      split at h
      · cases h
      · exact List.mem_cons_of_mem _ (ih h token htoken c hc)
      · split at h
        · next hrest =>
          cases h
          rcases List.mem_cons.mp htoken with rfl | htoken
          · exact List.mem_of_mem_take hc
          · exact List.mem_cons_of_mem _ (ih hrest token htoken c hc)
        · cases h

theorem mem_of_mem_unescape (h : c ∈ unescape cs) : c ∈ cs := by
  induction cs using unescape.induct with
  | case1 => exact h
  | case2 first rest ih =>
    rw [unescape, List.mem_cons] at h
    rcases h with rfl | h
    · simp
    · exact List.mem_cons_of_mem _ (List.mem_cons_of_mem _ (ih h))
  | case3 first rest hnot ih =>
    rw [unescape, List.mem_cons] at h
    · rcases h with rfl | h
      · simp
      · exact List.mem_cons_of_mem _ (ih h)
    · exact hnot

/-- **Escapes make no characters.** -/
theorem mem_of_mem_unquote (h : c ∈ unquote cs) : c ∈ cs :=
  List.mem_of_mem_drop (List.dropLast_subset _ (mem_of_mem_unescape h))

def Goal.IsWritten : (g : Goal) → g.Result → Prop
  | .term => Term.IsWritten
  | .fact => Atom.IsWritten
  | .rule => Rule.IsWritten

def Phrase.IsWritten : (p : Phrase) → p.Value → Prop
  | one g, v => g.IsWritten v
  | application, a => Atom.IsWritten a
  | more g, vs => ∀ v ∈ vs, g.IsWritten v
  | listed g, vs => ∀ v ∈ vs, g.IsWritten v
  | ended g, v => g.IsWritten v

def Token.IsInline (token : Token) : Prop := ∀ c ∈ token.text, Text.isLineEnd c = false

theorem isInline_ofList (h : ∀ c ∈ cs, Text.isLineEnd c = false) : IsInline (String.ofList cs) := by
  intro c hc
  rw [String.toList_ofList] at hc
  exact h c hc

theorem Token.IsInline.name {token : Token} (h : token.IsInline) : ForwardChaining.IsInline token.name :=
  isInline_ofList h

/-- **What tokens without line ends stand for is written.** -/
theorem Derivation.isWritten {p : Phrase} (d : Derivation p) (h : ∀ token ∈ d.tokens, token.IsInline) :
    p.IsWritten d.value := by
  induction d with
  | variableName v => exact .var (isInline_ofList fun c hc => h v.1 (by simp [tokens]) c (List.mem_of_mem_drop hc))
  | quotation q => exact .const (isInline_ofList fun c hc => h q.1 (by simp [tokens]) c (mem_of_mem_unquote hc))
  | constant c => exact .const (h c.1 (by simp [tokens])).name
  | compound a ih => exact ih h
  | application f opening args closing ih =>
    simp only [tokens, List.forall_mem_cons, List.forall_mem_append] at h
    exact .app h.1.name (ih h.2.2.1)
  | bare f => exact .app (h f.1 (by simp [tokens])).name fun _ hu => absurd hu List.not_mem_nil
  | applied a ih => exact ih h
  | rule antecedents arrow consequent iha ihc =>
    simp only [tokens, List.forall_mem_cons, List.forall_mem_append] at h
    exact ⟨iha h.1, ihc h.2.2⟩
  | noMore => simp [Phrase.IsWritten, value]
  | more comma next others ihn iho =>
    simp only [tokens, List.forall_mem_cons, List.forall_mem_append] at h
    exact List.forall_mem_cons.mpr ⟨ihn h.2.1, iho h.2.2⟩
  | empty => simp [Phrase.IsWritten, value]
  | list first others ihf iho =>
    simp only [tokens, List.forall_mem_append] at h
    exact List.forall_mem_cons.mpr ⟨ihf h.1, iho h.2⟩
  | undotted d ih => exact ih h
  | dotted d dot ih =>
    simp only [tokens, List.forall_mem_append] at h
    exact ih h.1

def Statement.IsWritten : Statement → Prop
  | fact a => a.IsWritten
  | rule r => r.IsWritten

theorem isWritten_of_parseTokens {g : Goal} {tokens : List Token} {v : g.Result}
    (htokens : ∀ token ∈ tokens, token.IsInline) (h : parseTokens g cs tokens = .ok v) : g.IsWritten v := by
  obtain ⟨d, rfl, rfl⟩ := parseTokens_eq_ok_iff.mp h
  exact d.isWritten htokens

/-- **A line states only what is written.** -/
theorem isWritten_of_statement? {s : Statement} (hline : ∀ c ∈ cs, Text.isLineEnd c = false)
    (h : statement? cs = some s) : s.IsWritten := by
  have hread : readLine cs = .ok (some s) := by
    rw [statement?] at h
    split at h
    · next hread => rw [hread, h]
    · cases h
  unfold readLine tokensOf at hread
  cases hscan : scan cs with
  | error p =>
    rw [hscan] at hread
    cases hread
  | ok tokens =>
    have htokens : ∀ token ∈ tokens, token.IsInline :=
      fun token htoken c hc => hline c (mem_of_mem_token hscan token htoken c hc)
    rw [hscan] at hread
    cases tokens with
    | nil => cases hread
    | cons token tokens =>
      dsimp only at hread
      split at hread
      · cases hparse : parseTokens .rule cs (token :: tokens) with
        | error e => rw [hparse] at hread; cases hread
        | ok r =>
          rw [hparse] at hread
          cases hread
          exact isWritten_of_parseTokens (g := .rule) htokens hparse
      · cases hparse : parseTokens .fact cs (token :: tokens) with
        | error e => rw [hparse] at hread; cases hread
        | ok a =>
          rw [hparse] at hread
          cases hread
          exact isWritten_of_parseTokens (g := .fact) htokens hparse

/-- **A program states only what is written.** -/
theorem isWritten_of_parseProgram {text : String} {p : Program} (h : parseProgram text = .ok p) :
    (∀ a ∈ p.facts, a.IsWritten) ∧ ∀ r ∈ p.rules, r.IsWritten := by
  obtain ⟨_, rfl⟩ := parseProgram_eq_ok_iff.mp h
  have hstatements : ∀ s ∈ statementsOf text, s.IsWritten := by
    intro s hs
    obtain ⟨line, hline, hs⟩ := List.mem_filterMap.mp hs
    exact isWritten_of_statement? (Text.not_isLineEnd_of_mem_lines _ line hline) hs
  exact ⟨fun a ha => hstatements _ (mem_facts_ofStatements.mp ha),
    fun r hr => hstatements _ (mem_rules_ofStatements.mp hr)⟩

end Notation

/-! ### What engines hold -/

namespace Engine

structure IsWritten (e : Engine) : Prop where
  facts : ∀ a ∈ e.facts.roster.items, a.IsWritten
  rules : ∀ r ∈ e.rules.items, r.IsWritten

theorem IsWritten.infer {e : Engine} (h : e.IsWritten) : ∀ a ∈ e.infer.facts, a.IsWritten :=
  (infer_saturates e).isWritten h.rules e.facts.ground h.facts

theorem Gains.isWritten {e e' : Engine} {atoms : List Atom} {rules : List Rule} (h : e.Gains atoms rules e')
    (he : e.IsWritten) (hatoms : ∀ a ∈ atoms, a.IsWritten) (hrules : ∀ r ∈ rules, r.IsWritten) : e'.IsWritten where
  facts a ha := by
    rw [h.facts] at ha
    exact (Roster.mem_of_mem_insertAll ha).elim (he.facts a) fun ha => hatoms a (List.mem_of_mem_filter ha)
  rules r hr := by
    rw [h.rules] at hr
    exact (Roster.mem_of_mem_insertAll hr).elim (he.rules r) (hrules r)

theorem isWritten_empty (cap : Cap) : IsWritten { cap } :=
  ⟨fun _ ha => absurd ha List.not_mem_nil, fun _ hr => absurd hr List.not_mem_nil⟩

theorem isWritten_philosophers (cap : Cap) : (philosophers cap).IsWritten := by
  have hfact : ∀ f (names : List String), IsInline f → (∀ s ∈ names, IsInline s) →
      Atom.IsWritten ⟨f, names.map fun s => .const (.text s)⟩ := by
    intro f names hf hnames
    refine .app hf fun t ht => ?_
    obtain ⟨s, hs, rfl⟩ := List.mem_map.mp ht
    exact .const (hnames s hs)
  have hpattern : ∀ f (names : List String), IsInline f → (∀ v ∈ names, IsInline v) →
      Atom.IsWritten ⟨f, names.map .var⟩ := by
    intro f names hf hnames
    refine .app hf fun t ht => ?_
    obtain ⟨v, hv, rfl⟩ := List.mem_map.mp ht
    exact .var (hnames v hv)
  refine (addStatements_gains _ _).isWritten (isWritten_empty cap) ?_ ?_
  · simp only [List.forall_mem_cons]
    exact ⟨hfact "human" ["Socrates"] (by decide) (by decide), hfact "human" ["Plato"] (by decide) (by decide),
      hfact "philosopher" ["Socrates"] (by decide) (by decide),
      hfact "teacherOf" ["Socrates", "Plato"] (by decide) (by decide),
      hfact "teacherOf" ["Plato", "Aristotle"] (by decide) (by decide), fun _ h => absurd h List.not_mem_nil⟩
  · have hrule : ∀ a b name, Atom.IsWritten a → Atom.IsWritten b → Rule.IsWritten ⟨[a], b, name⟩ :=
      fun _ _ _ ha hb => ⟨by simpa using ha, hb⟩
    simp only [List.forall_mem_cons]
    exact ⟨hrule _ _ _ (hpattern "human" ["X"] (by decide) (by decide))
        (hpattern "mortal" ["X"] (by decide) (by decide)),
      hrule _ _ _ (hpattern "philosopher" ["X"] (by decide) (by decide))
        (hpattern "human" ["X"] (by decide) (by decide)),
      hrule _ _ _ (hpattern "teacherOf" ["X", "Y"] (by decide) (by decide))
        (hpattern "studentOf" ["Y", "X"] (by decide) (by decide)), fun _ h => absurd h List.not_mem_nil⟩

end Engine

end ForwardChaining
