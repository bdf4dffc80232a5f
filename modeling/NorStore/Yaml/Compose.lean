import NorStore.Yaml.Parser

/-!
# The node tree of a YAML document

The composer turns the events of the first document into a tree of nodes; later documents
are not read, past what the scanner looks ahead. Each node keeps the line and column it
starts at (from one), its tag and, for a scalar, its text and how it was written. An alias
stands for the node its anchor was last given to.

Before any of that the text is checked as characters: it must be UTF-8, and only tabs,
line breaks and printable characters may appear. A leading byte-order mark is dropped.
-/

namespace NorStore.Yaml

/-- A node of a document. -/
inductive Node where
  /-- A scalar: its tag, text, style, and whether the tag was written out. -/
  | scalar (tag text : String) (style : ScalarStyle) (tagged : Bool) (line column : Nat)
  | sequence (tag : String) (items : List Node) (line column : Nat)
  | mapping (tag : String) (entries : List (Node × Node)) (line column : Nat)
  /-- An alias, by anchor name, with the node it stands for. -/
  | reference (name : String) (target : Node) (line column : Nat)
  deriving Repr, Inhabited

namespace Node

/-- The line a node starts on, from one. -/
def line : Node → Nat
  | scalar _ _ _ _ l _ | sequence _ _ l _ | mapping _ _ l _ | reference _ _ l _ => l

/-- The column a node starts at, from one. -/
def column : Node → Nat
  | scalar _ _ _ _ _ c | sequence _ _ _ c | mapping _ _ _ c | reference _ _ _ c => c

/-- The text of a node: a scalar's text, an alias's anchor name, empty for a collection. -/
def text : Node → String
  | scalar _ t .. => t
  | reference n .. => n
  | _ => ""

/-- The tag of a node; an alias has none of its own. -/
def tag : Node → String
  | scalar t .. | sequence t .. | mapping t .. => t
  | reference .. => ""

/-- Which of the four kinds a node is. -/
def kindIndex : Node → Nat
  | scalar .. => 0
  | sequence .. => 1
  | mapping .. => 2
  | reference .. => 3

end Node

/-- The prefix of the standard tags. -/
def standardPrefix : String := "tag:yaml.org,2002:"

/-- A tag as it is shown: a standard tag as `!!name`. -/
def shortTag (tag : String) : String :=
  if tag.startsWith standardPrefix then "!!" ++ (tag.drop standardPrefix.length).toString
  else tag

/-- The composer's state: the parser, one event looked at but not taken, and the nodes
anchors were given to. -/
structure Composer where
  parser : Parser
  pending : Option Event := none
  anchors : List (String × Node) := []
  deriving Inhabited

/-- Composing, which may fail. -/
abbrev ComposeM := StateT Composer (Except Error)

/-- Runs a parsing step on the composer's parser. -/
def onParser (act : ParseM α) : ComposeM α := do
  let c ← get
  match act.run c.parser with
  | .ok (a, p) =>
    set { c with parser := p }
    pure a
  | .error e => throw e

/-- The next event, without taking it. -/
def peekEvent : ComposeM Event := do
  match (← get).pending with
  | some e => pure e
  | none =>
    let e ← onParser nextEvent
    modify fun c => { c with pending := some e }
    pure e

/-- Takes the next event. -/
def takeEvent : ComposeM Event := do
  let e ← peekEvent
  modify fun c => { c with pending := none }
  pure e

/-- Gives a node to an anchor, when there is one. -/
def anchorNode (anchor : String) (n : Node) : ComposeM Unit :=
  if anchor.isEmpty then pure ()
  else modify fun c => { c with anchors := (anchor, n) :: c.anchors.filter (·.1 != anchor) }

/-- The tag of a node from its event: a written tag (other than `!`) as shown, else the
default of its kind. -/
def nodeTag (written dflt : String) : String × Bool :=
  if written != "" && written != "!" then (shortTag written, true) else (dflt, false)

mutual

/-- Builds the node that the next events describe. -/
def composeNode (resolve : String → String) (budget : Nat) : ComposeM Node :=
  match budget with
  | 0 => throw (.plain "document nests too deeply")
  | fuel + 1 => do
    let e ← takeEvent
    let line := e.start.line + 1
    let column := e.start.column + 1
    match e.kind with
    | .scalar text style =>
      let dflt := if style != .plain then "!!str" else if text == "<<" then "!!merge" else ""
      let (tag, tagged) := nodeTag e.tag dflt
      let tag := if tag == "" then resolve text else tag
      let n := Node.scalar tag text style tagged line column
      anchorNode e.anchor n
      pure n
    | .reference name =>
      match (← get).anchors.lookup name with
      | some target => pure (.reference name target line column)
      | none => throw (.plain ("unknown anchor '" ++ name ++ "' referenced"))
    | .sequenceStart _ =>
      let items ← composeItems resolve fuel fuel
      discard takeEvent
      let n := Node.sequence (nodeTag e.tag "!!seq").1 items line column
      anchorNode e.anchor n
      pure n
    | .mappingStart _ =>
      let entries ← composeEntries resolve fuel fuel
      discard takeEvent
      let n := Node.mapping (nodeTag e.tag "!!map").1 entries line column
      anchorNode e.anchor n
      pure n
    | _ => throw (.plain "attempted to parse unknown event")
termination_by (budget, 0)

/-- Builds the items of a sequence, up to its end. -/
def composeItems (resolve : String → String) (fuel count : Nat) : ComposeM (List Node) :=
  match count with
  | 0 => pure []
  | count + 1 => do
    match (← peekEvent).kind with
    | .sequenceEnd => pure []
    | _ =>
      let n ← composeNode resolve fuel
      let rest ← composeItems resolve fuel count
      pure (n :: rest)
termination_by (fuel, count + 1)

/-- Builds the entries of a mapping, up to its end. -/
def composeEntries (resolve : String → String) (fuel count : Nat) :
    ComposeM (List (Node × Node)) :=
  match count with
  | 0 => pure []
  | count + 1 => do
    match (← peekEvent).kind with
    | .mappingEnd => pure []
    | _ =>
      let k ← composeNode resolve fuel
      let v ← composeNode resolve fuel
      let rest ← composeEntries resolve fuel count
      pure ((k, v) :: rest)
termination_by (fuel, count + 1)

end

/-- Takes an event of the expected kind; the stream's end is never expected. -/
def expectEvent (want : EventKind → Bool) (what : String) : ComposeM Unit := do
  let e ← takeEvent
  if let .streamEnd := e.kind then
    throw (.plain "attempted to go past the end of stream; corrupted value?")
  if !want e.kind then throw (.plain ("expected " ++ what ++ " event"))

/-- The root node of the first document, or nothing when the stream holds no document. -/
def composeFirst (resolve : String → String) (fuel : Nat) : ComposeM (Option Node) := do
  expectEvent (fun | .streamStart => true | _ => false) "STREAM-START"
  match (← peekEvent).kind with
  | .streamEnd => pure none
  | _ =>
    expectEvent (fun | .documentStart => true | _ => false) "DOCUMENT-START"
    let root ← composeNode resolve fuel
    expectEvent (fun | .documentEnd => true | _ => false) "DOCUMENT-END"
    pure (some root)

/-- Whether a character may appear in YAML text. -/
def allowedChar (c : Char) : Bool :=
  let v := c.toNat
  v == 0x09 || v == 0x0A || v == 0x0D || (0x20 ≤ v && v ≤ 0x7E) || v == 0x85 ||
    (0xA0 ≤ v && v ≤ 0xD7FF) || (0xE000 ≤ v && v ≤ 0xFFFD) || (0x10000 ≤ v && v ≤ 0x10FFFF)

/-- Decodes UTF-8 text into characters, as strictly as the YAML reader does: the first
failure is reported by what is wrong with the bytes there. -/
def decodeText (bytes : List UInt8) : Nat → Except Error (List Char)
  | 0 => pure []
  | fuel + 1 =>
    match bytes with
    | [] => pure []
    | b :: rest =>
      let v := b.toNat
      let width := if v < 0x80 then 1 else if v / 32 == 6 then 2 else if v / 16 == 14 then 3
        else if v / 8 == 30 then 4 else 0
      if width == 0 then throw { stage := .reader, problem := "invalid leading UTF-8 octet" }
      else if rest.length < width - 1 then
        throw { stage := .reader, problem := "incomplete UTF-8 octet sequence" }
      else
        let tail := rest.take (width - 1)
        if tail.any (fun t => t.toNat / 64 != 2) then
          throw { stage := .reader, problem := "invalid trailing UTF-8 octet" }
        else
          let lead := if width == 1 then v else if width == 2 then v % 32
            else if width == 3 then v % 16 else v % 8
          let code := tail.foldl (fun acc t => acc * 64 + t.toNat % 64) lead
          if !(width == 1 || (width == 2 && code ≥ 0x80) || (width == 3 && code ≥ 0x800) ||
              (width == 4 && code ≥ 0x10000)) then
            throw { stage := .reader, problem := "invalid length of a UTF-8 sequence" }
          else if (0xD800 ≤ code && code ≤ 0xDFFF) || code > 0x10FFFF then
            throw { stage := .reader, problem := "invalid Unicode character" }
          else
            let c := Char.ofNat code
            if !allowedChar c then
              throw { stage := .reader, problem := "control characters are not allowed" }
            else do
              let more ← decodeText (rest.drop (width - 1)) fuel
              pure (c :: more)

/-- The characters of YAML text, without a leading byte-order mark. -/
def readText (b : ByteArray) : Except Error (Array Char) := do
  let bytes := b.toList
  let bytes := if bytes.take 3 == [0xEF, 0xBB, 0xBF] then bytes.drop 3 else bytes
  let cs ← decodeText bytes (bytes.length + 1)
  pure cs.toArray

/-- The root node of the first document of YAML text, or nothing for an empty stream.
`resolve` gives the tag of a plain scalar written without one. -/
def firstDocument (resolve : String → String) (b : ByteArray) : Except Error (Option Node) := do
  let text ← readText b
  let c : Composer := { parser := { scanner := { text } } }
  let fuel := 4 * text.size + 16
  let (root, _) ← (composeFirst resolve fuel).run c
  pure root

end NorStore.Yaml
