import ForwardChaining.Content
import ForwardChaining.Yaml.Implicit
import ForwardChaining.Yaml.Token

/-!
# Reading YAML

A text is read if it holds one document at most; no document at all stands for nothing. The tokens are taken
by descent along the grammar, and each step of the descent passes a token or stands in front of one, so that
a multiple of their number bounds the steps.

A node may be named by an anchor, once, and used again by reference wherever it is complete. Tags choose among
the kinds of plain data and moments; any other tag makes the document unreadable here.
-/

namespace ForwardChaining.Yaml

/-- A node of a document: a list, anything else that it may hold, or a plain scalar that is a mark. -/
inductive Node where
  | list (items : List Content)
  | content (c : Content)
  | merge
  | standard

/-- A list of something: plain data if all its items are, and otherwise a thing in which its texts are found. -/
def contentOfList (items : List Content) : Content :=
  match items.mapM Content.datum? with
  | some ds => .datum (.list ds)
  | none => .thing
      { truthy := !items.isEmpty
        shown := "[" ++ commaSeparated (items.map Content.shown) ++ "]"
        texts := some (items.filterMap fun
          | .datum (.scalar (.text s)) => some s
          | _ => none) }

/-- The entries of a map, if they are plain data. -/
def plainEntries? (entries : List (Key × Content)) : Option (List (CodeText × Datum)) :=
  entries.mapM fun
    | (.text key, .datum d) => some (key, d)
    | _ => none

/-- A map of entries. -/
def contentOfMap (entries : List (Key × Content)) : Content :=
  match plainEntries? entries with
  | some entries => .datum (.map entries)
  | none => .map entries

/-- What a node holds. The marks hold nothing. -/
def Node.content? : Node → Option Content
  | .list items => some (contentOfList items)
  | .content c => some c
  | _ => none

/-- The entries of something that is a map. -/
def entriesOf? : Content → Option (List (Key × Content))
  | .datum (.map entries) => some (entries.map fun e => (.text e.1, .datum e.2))
  | .map entries => some entries
  | _ => none

/-- The entries that a merged node adds to a map: those of a map, or those of the maps of a list, earlier
ones overriding later ones. -/
def mergedEntries? : Node → Option (List (Key × Content))
  | .list items => (items.reverse.mapM entriesOf?).map List.flatten
  | .content c => entriesOf? c
  | _ => none

/-- The key that a node is. A collection cannot be one. -/
def keyOf? : Node → Option Key
  | .content (.datum (.scalar (.text s))) => some (.text s)
  | .content (.datum (.scalar v)) => some (.other v.shown)
  | .content (.thing t) => some (.other t.shown)
  | .standard => some (.text "=")
  | _ => none

/-- The entries with something put under a key: a new key goes to the end, a key that is there keeps its
place. -/
def putEntry (entries : List (Key × Content)) (key : Key) (c : Content) : List (Key × Content) :=
  if entries.any fun e => e.1 = key then entries.map fun e => if e.1 = key then (key, c) else e
  else entries ++ [(key, c)]

/-- The map of pairs of nodes: what is merged comes first, so that the entries of the map itself
override it. -/
def mapOf? (pairs : List (Node × Node)) : Option Content := do
  let merged ← (pairs.filterMap fun
    | (.merge, node) => some node
    | _ => none).mapM mergedEntries?
  let own ← (pairs.filter fun
    | (.merge, _) => false
    | _ => true).mapM fun (key, node) => do some (← keyOf? key, ← node.content?)
  some (contentOfMap ((merged.flatten ++ own).foldl (fun found (key, c) => putEntry found key c) []))

/-- The beginning of the tags that the format itself defines. -/
def coreTag : String := "tag:yaml.org,2002:"

/-- The node of a moment, which must be one that there is. -/
def momentNode? (text : String) : Option Node :=
  if isOnCalendar text.toList then
    some (.content (.thing { truthy := true, shown := momentShown text.toList, texts := none }))
  else none

/-- The node of a plain scalar. -/
def plainNode? (text : String) : Option Node :=
  match Plain.of text with
  | .value v => some (.content (.datum (.scalar (.ofValue v))))
  | .malformed => none
  | .moment => momentNode? text
  | .merge => some .merge
  | .standard => some .standard

/-- The node of a scalar. Without a tag a plain one stands for what it looks like and any other for its
text; a tag must fit the text. -/
def scalarNode? (tag : Option String) (isPlain : Bool) (text : CodeText) : Option Node :=
  let own : Option Node := some (.content (.text text))
  let implicit : Option Node := match Text.string? text with
    | some s => plainNode? s
    | none => own
  match tag with
  | none => if isPlain then implicit else own
  | some tag =>
    if tag = "!" then implicit
    else if tag = coreTag ++ "str" then own
    else if tag = coreTag ++ "null" then some (.content (.datum .null))
    else match (Text.string? text).map Plain.of with
      | some (.value (.int n)) =>
        if tag = coreTag ++ "int" then some (.content (.datum (.int n)))
        else if tag = coreTag ++ "float" then
          some (.content (.datum (.scalar (.real (.ofDecimal (n < 0) n.natAbs 0)))))
        else none
      | some (.value (.real x)) =>
        if tag = coreTag ++ "float" then some (.content (.datum (.scalar (.real x)))) else none
      | some (.value (.bool b)) => if tag = coreTag ++ "bool" then some (.content (.datum (.bool b))) else none
      | some .moment =>
        if tag = coreTag ++ "timestamp" then (Text.string? text).bind momentNode? else none
      | _ => none

/-- What is left to read, the handles that abbreviate tags, and the nodes named by anchors. A node whose
reading is not complete has none yet. -/
structure Place where
  tokens : List Token
  handles : List (String × String) := [("!", "!"), ("!!", coreTag)]
  anchors : List (String × Option Node) := []

/-- A step that reads something. -/
abbrev Reading := StateT Place Option

namespace Reading

/-- The next token. -/
def peek? : Reading (Option Token) := do return (← get).tokens.head?

/-- Pass the next token. -/
def pass : Reading Unit := modify fun p => { p with tokens := p.tokens.tail }

/-- Pass the next token if it is the given one, and say whether it was. -/
def passIf (t : Token) : Reading Bool := do
  if (← peek?) = some t then
    pass
    return true
  else return false

/-- Whether the next token is one of the given ones. -/
def sees (ts : List Token) : Reading Bool := do
  match ← peek? with
  | some t => return t ∈ ts
  | none => return false

/-- The document is unreadable. -/
def fail {α : Type} : Reading α := fun _ => none

/-- The result of a pure step, which must have one. -/
def lift {α : Type} (x : Option α) : Reading α := fun p => x.map fun a => (a, p)

/-- The node of an absent scalar. -/
def absent : Node := .content (.datum .null)

/-- A tag in full. -/
def fullTag (handle : Option String) (rest : String) : Reading String := do
  match handle with
  | none => return rest
  | some handle => return (← lift ((← get).handles.lookup handle)) ++ rest

/-- The properties of a node, in either order: its anchor and its tag. -/
def properties : Nat → Reading (Option String × Option String)
  | 0 => return (none, none)
  | fuel + 1 => do
    match ← peek? with
    | some (.anchor name) =>
      pass
      let (anchor, tag) ← properties fuel
      if anchor.isSome then fail
      return (some name, tag)
    | some (.tag handle rest) =>
      pass
      let full ← fullTag handle rest
      let (anchor, tag) ← properties fuel
      if tag.isSome then fail
      return (anchor, some full)
    | _ => return (none, none)

/-- Read a node under its anchor, which must be new. -/
def anchored (anchor : Option String) (node : Reading Node) : Reading Node := do
  match anchor with
  | none => node
  | some name =>
    if ((← get).anchors.lookup name).isSome then fail
    modify fun p => { p with anchors := (name, none) :: p.anchors }
    let node ← node
    modify fun p => { p with anchors := (name, some node) :: p.anchors.filter fun entry => entry.1 ≠ name }
    return node

/-- A collection under a tag, which must allow for it. -/
def collection (tag : Option String) (name : String) (node : Reading Node) : Reading Node := do
  let node ← node
  if tag = none ∨ tag = some "!" ∨ tag = some (coreTag ++ name) then return node else fail

mutual
/-- Read a node. Block collections may be ruled out, as they are between brackets; items without an
indentation of their own are read where a map's value may consist of them. -/
def node (block indentless : Bool) : Nat → Reading Node
  | 0 => fail
  | fuel + 1 => do
    match ← peek? with
    | some (.reference name) =>
      pass
      lift (((← get).anchors.lookup name).bind id)
    | _ =>
      let (anchor, tag) ← properties 2
      anchored anchor do
        match ← peek? with
        | some .item =>
          if indentless then collection tag "seq" (return .list (← items true fuel))
          else if anchor.isSome || tag.isSome then lift (scalarNode? tag true [])
          else fail
        | some (.scalar isPlain text) =>
          pass
          lift (scalarNode? tag isPlain text)
        | some .flowList =>
          pass
          collection tag "seq" (return .list (← flowItems true fuel))
        | some .flowMap =>
          pass
          collection tag "map" (do return .content (← lift (mapOf? (← flowEntries true fuel))))
        | some .blockList =>
          if block then
            pass
            collection tag "seq" (return .list (← items false fuel))
          else if anchor.isSome || tag.isSome then lift (scalarNode? tag true [])
          else fail
        | some .blockMap =>
          if block then
            pass
            collection tag "map" (do return .content (← lift (mapOf? (← entries fuel))))
          else if anchor.isSome || tag.isSome then lift (scalarNode? tag true [])
          else fail
        | _ =>
          if anchor.isSome || tag.isSome then lift (scalarNode? tag true [])
          else fail

/-- Read a node unless one of the given tokens, or the end, comes next. -/
def nodeUnless (ends : List Token) (block indentless : Bool) : Nat → Reading Node
  | 0 => fail
  | fuel + 1 => do
    if ← sees ends then return absent else node block indentless fuel

/-- Read the items of a block. Without an indentation of their own they end where none comes next. -/
def items (indentless : Bool) : Nat → Reading (List Content)
  | 0 => fail
  | fuel + 1 => do
    if ← passIf .item then
      let ends := if indentless then [Token.item, .key, .value, .blockEnd] else [Token.item, .blockEnd]
      let d ← lift (← nodeUnless ends true false fuel).content?
      return d :: (← items indentless fuel)
    else if indentless then return []
    else if ← passIf .blockEnd then return []
    else fail

/-- Read the entries of a block. -/
def entries : Nat → Reading (List (Node × Node))
  | 0 => fail
  | fuel + 1 => do
    if ← passIf .blockEnd then return []
    if !(← passIf .key) then fail
    let key ← nodeUnless [.key, .value, .blockEnd] true true fuel
    let value ← if ← passIf .value then nodeUnless [.key, .value, .blockEnd] true true fuel else pure absent
    return (key, value) :: (← entries fuel)

/-- Read the items between brackets. An item that is a key with a value is a map of its own. -/
def flowItems (first : Bool) : Nat → Reading (List Content)
  | 0 => fail
  | fuel + 1 => do
    if ← passIf .flowListEnd then return []
    if !first then
      if !(← passIf .comma) then fail
      if ← passIf .flowListEnd then return []
    if ← passIf .key then
      let key ← nodeUnless [.value, .comma, .flowListEnd] false false fuel
      let value ← if ← passIf .value then nodeUnless [.comma, .flowListEnd] false false fuel else pure absent
      let d ← lift (mapOf? [(key, value)])
      return d :: (← flowItems false fuel)
    else
      let d ← lift (← node false false fuel).content?
      return d :: (← flowItems false fuel)

/-- Read the entries between braces. -/
def flowEntries (first : Bool) : Nat → Reading (List (Node × Node))
  | 0 => fail
  | fuel + 1 => do
    if ← passIf .flowMapEnd then return []
    if !first then
      if !(← passIf .comma) then fail
      if ← passIf .flowMapEnd then return []
    if ← passIf .key then
      let key ← nodeUnless [.value, .comma, .flowMapEnd] false false fuel
      let value ← if ← passIf .value then nodeUnless [.comma, .flowMapEnd] false false fuel else pure absent
      return (key, value) :: (← flowEntries false fuel)
    else
      let key ← node false false fuel
      return (key, absent) :: (← flowEntries false fuel)
end

/-- Pass the directives before a document: at most one version, and handles that are all new. -/
def directives (versionGiven : Bool) (given : List String) : Nat → Reading Unit
  | 0 => fail
  | fuel + 1 => do
    match ← peek? with
    | some (.directive handle isVersion) =>
      pass
      if isVersion && versionGiven then fail
      match handle with
      | none => directives (versionGiven || isVersion) given fuel
      | some (handle, start) =>
        if handle ∈ given then fail
        modify fun p => { p with handles := (handle, start) :: p.handles }
        directives versionGiven (handle :: given) fuel
    | _ => return ()

/-- Read the only document. -/
def document (fuel : Nat) : Reading Node := do
  match ← peek? with
  | none => return absent
  | some (.directive ..) | some .documentStart =>
    directives false [] fuel
    if !(← passIf .documentStart) then fail
    match ← peek? with
    | none | some .documentStart | some .documentEnd | some (.directive ..) => return absent
    | _ => node true false fuel
  | _ => node true false fuel

end Reading

/-- What a text holds. -/
def read? (cs : List Char) : Option Content := do
  let tokens ← tokens? cs
  let (node, place) ← (Reading.document (4 * tokens.length + 4)).run { tokens }
  let c ← node.content?
  if place.tokens.all (· = .documentEnd) then some c else none

end ForwardChaining.Yaml
