import ForwardChaining.Text.Hex
import ForwardChaining.Text.Utf8

/-!
# Texts in ASCII

What is written to be read again keeps to the printable characters of ASCII, and to line feeds where it has lines.
Such a text is stored in as many bytes as it has characters and is what these bytes stand for, `decode_encode`, and
there is nothing in it that counts as another line end, `unifyLineEnds_eq_self`.
-/

namespace ForwardChaining

variable {c : Char} {cs ds : List Char}

/-- A printable character of ASCII. -/
def IsPlain (c : Char) : Prop := 0x20 ≤ c.toNat ∧ c.toNat ≤ 0x7E

instance (c : Char) : Decidable (IsPlain c) := inferInstanceAs (Decidable (_ ∧ _))

/-- Printable ASCII and nothing else. -/
def ArePlain (cs : List Char) : Prop := ∀ c ∈ cs, IsPlain c

instance (cs : List Char) : Decidable (ArePlain cs) := List.decidableBAll IsPlain cs

/-- Printable ASCII and line feeds, and nothing else. -/
def AreLines (cs : List Char) : Prop := ∀ c ∈ cs, IsPlain c ∨ c = '\n'

instance (cs : List Char) : Decidable (AreLines cs) := List.decidableBAll (fun c => IsPlain c ∨ c = '\n') cs

theorem ArePlain.append (hcs : ArePlain cs) (hds : ArePlain ds) : ArePlain (cs ++ ds) :=
  List.forall_mem_append.2 ⟨hcs, hds⟩

theorem ArePlain.cons (hc : IsPlain c) (hcs : ArePlain cs) : ArePlain (c :: cs) := List.forall_mem_cons.2 ⟨hc, hcs⟩

theorem ArePlain.areLines (h : ArePlain cs) : AreLines cs := fun c hc => .inl (h c hc)

theorem AreLines.append (hcs : AreLines cs) (hds : AreLines ds) : AreLines (cs ++ ds) :=
  List.forall_mem_append.2 ⟨hcs, hds⟩

theorem AreLines.cons (hc : IsPlain c) (hcs : AreLines cs) : AreLines (c :: cs) :=
  List.forall_mem_cons.2 ⟨.inl hc, hcs⟩

/-- A new line with blanks at its beginning. -/
theorem areLines_indent (n : Nat) : AreLines ('\n' :: List.replicate n ' ') :=
  List.forall_mem_cons.2 ⟨.inr rfl, fun _ hc => .inl (List.eq_of_mem_replicate hc ▸ by decide)⟩

namespace Text

theorem arePlain_hexFigures (w n : Nat) : ArePlain (hexFigures w n) := by
  induction w generalizing n with
  | zero => nofun
  | succ w ih =>
    have hfigure : IsPlain (hexFigure (n % 16)) :=
      (by decide : ∀ n < 16, IsPlain (hexFigure n)) (n % 16) (Nat.mod_lt n (by decide))
    exact (ih (n / 16)).append (.cons hfigure nofun)

theorem utf8EncodeChar_of_lt (h : c.toNat < 0x80) : String.utf8EncodeChar c = [UInt8.ofNat c.toNat] := by
  have hle : c.val.toNat ≤ 0x7F := Nat.le_of_lt_succ h
  exact if_pos hle

theorem decodeFrom_encoded (h : AreLines cs) (position : Nat) :
    decodeFrom position 0 (cs.flatMap String.utf8EncodeChar) = .ok cs := by
  induction cs generalizing position with
  | nil => rfl
  | cons c cs ih =>
    obtain ⟨hc, hcs⟩ := List.forall_mem_cons.1 h
    have hlt : c.toNat < 0x80 := by
      rcases hc with hc | rfl
      · exact Nat.lt_of_le_of_lt hc.2 (by decide)
      · decide
    have hnat : (UInt8.ofNat c.toNat).toNat = c.toNat := UInt8.toNat_ofNat_of_lt (Nat.lt_trans hlt (by decide))
    have hbyte : UInt8.ofNat c.toNat < 0x80 := UInt8.lt_iff_toNat_lt.2 (by rw [hnat]; exact hlt)
    rw [List.flatMap_cons, utf8EncodeChar_of_lt hlt, List.singleton_append, decodeFrom, if_neg (by decide),
      if_pos hbyte, ih hcs, hnat, Char.ofNat_toNat]
    rfl

/-- **A text in ASCII is what its bytes stand for.** -/
theorem decode_encode {s : String} (h : AreLines s.toList) : decode (encode s) = .ok s.toList :=
  decodeFrom_encoded h 0

/-- A text in ASCII has no line ends but line feeds. -/
theorem unifyLineEnds_eq_self (h : AreLines cs) : unifyLineEnds cs = cs := by
  induction cs with
  | nil => rfl
  | cons c cs ih =>
    obtain ⟨hc, hcs⟩ := List.forall_mem_cons.1 h
    have hreturn : c ≠ '\r' := by
      rintro rfl
      exact absurd hc (by decide)
    rw [unifyLineEnds, ih hcs]
    · exact fun _ heq _ => hreturn heq
    · exact hreturn

end Text

end ForwardChaining
