import ForwardChaining.Log.Layout
import ForwardChaining.Log.Template
import ForwardChaining.Proofs.Json.Ascii

/-!
# The line for programs

Whatever a record says, its line for programs is printable ASCII on a single line, and JSON reads from it the object
that was written: what every record has, with the fields of the record laid over it, and terms as they are displayed
(`FieldValue.Shows`).  `filledLine_decodes` says so of a record whose message is a template with its arguments.  Nothing
in a message or in a field can end the line or pass for another field.

There is one exception.  Where the two halves of a surrogate pair stand side by side as code points of their own, they
are written as the character that they are halves of, and read as it: `filledLine_joins`.
-/

namespace ForwardChaining

namespace FieldValue

/-- A datum shows a value: it is the same plain data, with the display of a term wherever the value has a term, and that
of another thing wherever it has one. -/
inductive Shows : FieldValue → Datum → Prop where
  | datum (d : Datum) : Shows (.datum d) d
  | term (t : Term) : Shows (.term t) (.text t.display)
  | other (display : CodeText) (shown : String) : Shows (.other display shown) (.text display)
  | list {items : List FieldValue} {ds : List Datum} (h : List.Forall₂ Shows items ds) : Shows (.list items) (.list ds)
  | map {entries : List (CodeText × FieldValue)} {es : List (CodeText × Datum)}
      (hkeys : es.map Prod.fst = entries.map Prod.fst)
      (h : List.Forall₂ Shows (entries.map Prod.snd) (es.map Prod.snd)) : Shows (.map entries) (.map es)

theorem plainEntries_eq_map (entries : List (CodeText × FieldValue)) :
    plainEntries entries = entries.map fun e => (e.1, e.2.plain) := by
  induction entries with
  | nil => rfl
  | cons e entries ih => rw [plainEntries, ih, List.map_cons]

theorem map_fst_plainEntries (entries : List (CodeText × FieldValue)) :
    (plainEntries entries).map Prod.fst = entries.map Prod.fst := by
  rw [plainEntries_eq_map, List.map_map]
  rfl

mutual
theorem shows_plain : ∀ x : FieldValue, x.Shows x.plain
  | .datum d => .datum d
  | .term t => .term t
  | .other display shown => .other display shown
  | .list items => .list (shows_plainAll items)
  | .map entries => .map (map_fst_plainEntries entries) (shows_plainEntries entries)

theorem shows_plainAll : ∀ items : List FieldValue, List.Forall₂ Shows items (plainAll items)
  | [] => .nil
  | x :: xs => .cons (shows_plain x) (shows_plainAll xs)

theorem shows_plainEntries : ∀ entries : List (CodeText × FieldValue),
    List.Forall₂ Shows (entries.map Prod.snd) ((plainEntries entries).map Prod.snd)
  | [] => .nil
  | (_, x) :: rest => .cons (shows_plain x) (shows_plainEntries rest)
end

end FieldValue

namespace Log

variable {stamp : Stamp} {origin : Origin} {exception : Option Exception} {r : Record} {message : CodeText}
  {arguments : List FieldValue} {base extra : List (CodeText × Datum)}

/-- Entries laid over others: those whose keys are there already replace what they find, and the others come behind. -/
def overlaid (base extra : List (CodeText × Datum)) : List (CodeText × Datum) :=
  base.map (fun e => (e.1, (extra.lookup e.1).getD e.2)) ++ extra.filter fun e => e.1 ∉ base.map Prod.fst

/-- What a record has without its fields: what every record has, and an error if one came with it. -/
def ownFields (stamp : Stamp) (origin : Origin) (exception : Option Exception) (r : Record) : List (CodeText × Datum) :=
  baseFields stamp origin r ++ (exception.map fun e => (Text.codes "exception", Datum.text e.text)).toList

/-- The line for programs of a record whose message is a template for arguments. -/
def filledLine (stamp : Stamp) (origin : Origin) (exception : Option Exception) (r : Record)
    (arguments : List FieldValue) : Except TemplateError String :=
  (messageOf r.message arguments).map fun message => programLine stamp origin exception { r with message }

theorem entries_eq_overlaid (hkeys : (r.fields.map Prod.fst).Nodup) :
    entries stamp origin exception r =
      overlaid (ownFields stamp origin exception r) (FieldValue.plainEntries r.fields) := by
  have hplain : ((FieldValue.plainEntries r.fields).map Prod.fst).Nodup := by
    rwa [FieldValue.map_fst_plainEntries]
  rw [overlaid, ← Datum.foldl_put hplain, FieldValue.plainEntries_eq_map, List.foldl_map, ownFields]
  cases exception <;> rfl

theorem keysDistinct_overlaid (hbase : (Datum.map base).KeysDistinct) (hextra : (Datum.map extra).KeysDistinct) :
    (Datum.map (overlaid base extra)).KeysDistinct := by
  obtain ⟨hkeys, hvalues⟩ := Datum.keysDistinct_map.1 hbase
  obtain ⟨hkeys', hvalues'⟩ := Datum.keysDistinct_map.1 hextra
  refine .map ?_ ?_
  · have hsame : (base.map fun e => (e.1, (extra.lookup e.1).getD e.2)).map Prod.fst = base.map Prod.fst := by
      rw [List.map_map]
      rfl
    rw [overlaid, List.map_append, hsame]
    refine List.nodup_append'.2 ⟨hkeys, hkeys'.sublist (List.filter_sublist.map _), fun key hold hnew => ?_⟩
    obtain ⟨e, he, rfl⟩ := List.mem_map.1 hnew
    exact absurd hold (by simpa using (List.mem_filter.1 he).2)
  · rw [overlaid, List.forall_mem_append, List.forall_mem_map]
    refine ⟨fun e he => ?_, fun e he => hvalues' e (List.mem_of_mem_filter he)⟩
    cases hlookup : extra.lookup e.1 with
    | none => exact hvalues e he
    | some d =>
      obtain ⟨before, behind, rfl, -⟩ := List.lookup_eq_some_iff.1 hlookup
      exact hvalues' (e.1, d) (by simp)

theorem keysDistinct_ownFields (stamp : Stamp) (origin : Origin) (exception : Option Exception) (r : Record) :
    (Datum.map (ownFields stamp origin exception r)).KeysDistinct := by
  refine .map ?_ ?_
  · cases exception <;> simp [ownFields, baseFields]
  · cases exception <;> cases h : origin.function <;> simp [ownFields, baseFields, h]

theorem read?_programLine_iff (hfields : (FieldValue.map r.fields).plain.KeysDistinct) :
    Json.read? (programLine stamp origin exception r).toList =
        some (.map (overlaid (ownFields stamp origin exception r) (FieldValue.plainEntries r.fields))) ↔
      Json.UnpairedIn
        (.map (overlaid (ownFields stamp origin exception r) (FieldValue.plainEntries r.fields))) := by
  have hkeys : (r.fields.map Prod.fst).Nodup := by
    have hplain := (Datum.keysDistinct_map.1 hfields).1
    rwa [FieldValue.map_fst_plainEntries] at hplain
  rw [programLine, entries_eq_overlaid hkeys]
  exact ⟨Json.unpairedIn_of_read?, Json.read?_plain (keysDistinct_overlaid (keysDistinct_ownFields ..) hfields)⟩

/-- **A line for programs is printable ASCII on a single line, and is read as the object that was written**, unless a
text of the object has the halves of a surrogate pair side by side. -/
theorem filledLine_decodes (stamp : Stamp) (origin : Origin) (exception : Option Exception)
    (hmessage : messageOf r.message arguments = .ok message)
    (hfields : (FieldValue.map r.fields).plain.KeysDistinct) :
    ∃ line, filledLine stamp origin exception r arguments = .ok line ∧
      (∀ c ∈ line.toList, 0x20 ≤ c.toNat ∧ c.toNat ≤ 0x7E) ∧
      (FieldValue.map r.fields).Shows (.map (FieldValue.plainEntries r.fields)) ∧
      (Json.read? line.toList =
          some (.map (overlaid (ownFields stamp origin exception { r with message })
            (FieldValue.plainEntries r.fields))) ↔
        Json.UnpairedIn (.map (overlaid (ownFields stamp origin exception { r with message })
          (FieldValue.plainEntries r.fields)))) := by
  refine ⟨programLine stamp origin exception { r with message }, by rw [filledLine, hmessage]; rfl, ?_,
    FieldValue.shows_plain _, read?_programLine_iff (r := { r with message }) hfields⟩
  rw [programLine, Json.plain, String.toList_ofList]
  exact Json.arePlain_plainText _

/-- The two halves of a pair from the template and from its argument: JSON reads one character from the line. -/
theorem filledLine_joins :
    let r : Record := { level := 20, logger := "x", message := [.ofNat 0xD83D, .char '%', .char 's'] }
    let arguments : List FieldValue := [.datum (.text [.ofNat 0xDE00])]
    let origin : Origin := { moduleName := "a", line := 1 }
    let stamp : Stamp := { plain := "", iso := "1970-01-01T00:00:00" }
    ∃ line, filledLine stamp origin none r arguments = .ok line ∧
      Json.read? line.toList ≠
        some (.map (overlaid (ownFields stamp origin none { r with message := [.ofNat 0xD83D, .ofNat 0xDE00] })
          (FieldValue.plainEntries r.fields))) := by
  intro r arguments origin stamp
  have hmessage : messageOf r.message arguments = .ok [.ofNat 0xD83D, .ofNat 0xDE00] := by rfl
  refine ⟨programLine stamp origin none { r with message := [.ofNat 0xD83D, .ofNat 0xDE00] },
    by rw [filledLine, hmessage]; rfl, fun h => ?_⟩
  have hunpaired :=
    (read?_programLine_iff (r := { r with message := [.ofNat 0xD83D, .ofNat 0xDE00] }) (.map .nil nofun)).1 h
  have hpair : Json.Unpaired [.ofNat 0xD83D, .ofNat 0xDE00] :=
    Json.unpairedIn_text.1 ((Json.unpairedIn_map.1 hunpaired).2 (Text.codes "message", _)
      (by simp [overlaid, ownFields, baseFields, r, FieldValue.plainEntries]))
  exact absurd hpair (by decide)

/-- A record whose message would break the line and has quotes in it, with a field that puts a list, and a term in it,
in the message's place. -/
def awkward : Record where
  level := 30
  logger := "chainlog.é\u2028"
  message := "no \"%s\",\n%d%% \\"
  fields := [("message", .list [.term (.app "p" [.const (.text "\x7f")]), .map [("\t", .datum (.scalar .null))]]),
    ("term", .term (.var "X"))]

/-- What is read from its line, where an error with lone surrogates in its message comes with it. -/
def awkwardObject : Datum :=
  .map [("timestamp", .text "1970-01-01T00:00:00"), ("level", .text "WARNING"), ("logger", .text "chainlog.é\u2028"),
    ("message", .list [.text "p(\x7f)", .map [("\t", .null)]]), ("module", .text "store"), ("function", .null),
    ("line", .int 0),
    ("exception", .text (Text.codes "Traceback:\nValueError: " ++ [.ofNat 0xDE00, .ofNat 0xD83D])),
    ("term", .text "?X")]

theorem filledLine_decodes_awkward :
    messageOf awkward.message [.term (.const (.text "😀")), .datum (.int 7)] = .ok "no \"😀\",\n7% \\" ∧
      (FieldValue.map awkward.fields).plain.KeysDistinct ∧
      ∃ line, filledLine { plain := "", iso := "1970-01-01T00:00:00" } { moduleName := "store" }
          (some { trace := "Traceback:\n", kind := "ValueError", message := [.ofNat 0xDE00, .ofNat 0xD83D] }) awkward
          [.term (.const (.text "😀")), .datum (.int 7)] = .ok line ∧
        (∀ c ∈ line.toList, 0x20 ≤ c.toNat ∧ c.toNat ≤ 0x7E) ∧
        (FieldValue.map awkward.fields).Shows (.map
          [("message", .list [.text "p(\x7f)", .map [("\t", .null)]]), ("term", .text "?X")]) ∧
        Json.read? line.toList = some awkwardObject := by
  have hmessage : messageOf awkward.message [.term (.const (.text "😀")), .datum (.int 7)] =
      .ok "no \"😀\",\n7% \\" := by rfl
  have hfields : (FieldValue.map awkward.fields).plain.KeysDistinct := by
    simp [awkward, FieldValue.plain, FieldValue.plainAll, FieldValue.plainEntries]
  have htext : Json.Unpaired (Text.codes "Traceback:\nValueError: " ++ [.ofNat 0xDE00, .ofNat 0xD83D]) := by decide
  have hunpaired : Json.UnpairedIn awkwardObject := by simpa [awkwardObject] using htext
  obtain ⟨line, hline, hplain, hshows, hread⟩ := filledLine_decodes _ _ _ hmessage hfields
  exact ⟨hmessage, hfields, line, hline, hplain, hshows, hread.2 hunpaired⟩

end Log

end ForwardChaining
