import NorStore.Yaml.Scanner

/-!
# Parsing YAML tokens into events

The parser is a state machine over the scanner's tokens, as the YAML grammar is written:
each state knows which tokens may come next, produces one event (the start or end of the
stream, a document, a collection, or a scalar or alias), and remembers on a stack the state
to return to when a nested node is done. Where the grammar allows a node to be left out
(`key:` with nothing after it, `- ` alone) the parser produces an empty plain scalar.

Tags are resolved here: `!!x` stands for `tag:yaml.org,2002:x`, `!x` for itself, and a
`%TAG` directive may name other handles for the document that follows it.
-/

namespace NorStore.Yaml

/-- Where the parser stands in the grammar. -/
inductive ParseState where
  | streamStart | implicitDocumentStart | documentStart | documentContent | documentEnd
  | blockNode | blockNodeOrIndentlessSequence | flowNode
  | blockSequenceFirstEntry | blockSequenceEntry | indentlessSequenceEntry
  | blockMappingFirstKey | blockMappingKey | blockMappingValue
  | flowSequenceFirstEntry | flowSequenceEntry
  | flowSequenceEntryMappingKey | flowSequenceEntryMappingValue | flowSequenceEntryMappingEnd
  | flowMappingFirstKey | flowMappingKey | flowMappingValue | flowMappingEmptyValue
  | finished
  deriving Repr, DecidableEq, Inhabited

/-- What an event is. -/
inductive EventKind where
  | streamStart | streamEnd | documentStart | documentEnd
  | reference (name : String)
  | scalar (text : String) (style : ScalarStyle)
  | sequenceStart (flow : Bool)
  | sequenceEnd
  | mappingStart (flow : Bool)
  | mappingEnd
  deriving Repr, Inhabited

/-- An event, with the anchor and tag of the node it starts. -/
structure Event where
  kind : EventKind
  /-- The anchor, or empty. -/
  anchor : String := ""
  /-- The resolved tag, or empty. -/
  tag : String := ""
  start : Mark
  stop : Mark
  deriving Repr, Inhabited

/-- The state of the parser. -/
structure Parser where
  scanner : Scanner
  state : ParseState := .streamStart
  /-- States to return to, innermost first. -/
  states : List ParseState := []
  /-- Where the open collections began, innermost first. -/
  marks : List Mark := []
  /-- Tag handles of the current document and their prefixes. -/
  tagDirectives : List (String × String) := []
  deriving Inhabited

/-- Parsing, which may fail. -/
abbrev ParseM := StateT Parser (Except Error)

/-- Runs a scanning step on the parser's scanner. -/
def onScanner (act : ScanM α) : ParseM α := do
  let p ← get
  match act.run p.scanner with
  | .ok (a, sc) =>
    set { p with scanner := sc }
    pure a
  | .error e => throw e

/-- The next token, scanning as far as needed. -/
def peekToken : ParseM Token :=
  onScanner do
    if !(← get).available then fetchMore
    match (← get).queue.head? with
    | some t => pure t
    | none =>
      let m := (← get).mark
      pure { kind := .streamEnd, start := m, stop := m }

/-- Takes the next token. -/
def skipToken : ParseM Unit :=
  onScanner <| modify fun s =>
    { s with available := false, parsed := s.parsed + 1, queue := s.queue.tail,
             ended := match s.queue.head? with
               | some t => t.kind.sameAs .streamEnd
               | none => s.ended }

/-- Fails with a problem at a position. -/
def parseFail (problem : String) (mark : Mark) : ParseM α :=
  throw { stage := .parser, problem, problemMark := mark }

/-- Fails with a problem at a position, inside a construct that began elsewhere. -/
def parseFailIn (context : String) (contextMark : Mark) (problem : String) (mark : Mark) :
    ParseM α :=
  throw { stage := .parser, context, contextMark, problem, problemMark := mark }

/-- Sets the next state. -/
def goTo (st : ParseState) : ParseM Unit :=
  modify fun p => { p with state := st }

/-- Returns to the state saved last. -/
def popState : ParseM Unit :=
  modify fun p => { p with state := p.states.headD .finished, states := p.states.tail }

/-- Saves a state to return to. -/
def pushState (st : ParseState) : ParseM Unit :=
  modify fun p => { p with states := st :: p.states }

/-- Remembers where a collection began. -/
def pushMark (m : Mark) : ParseM Unit :=
  modify fun p => { p with marks := m :: p.marks }

/-- Forgets where the innermost collection began, answering it. -/
def popMark : ParseM Mark := do
  let p ← get
  set { p with marks := p.marks.tail }
  return p.marks.headD {}

/-- An empty plain scalar at a position. -/
def emptyScalar (m : Mark) : Event :=
  { kind := .scalar "" .plain, start := m, stop := m }

/-- Adds a tag handle; a handle named twice in one document is a failure, except that a
default does not replace a handle already named. -/
def addTagDirective (handle pre : String) (allowDuplicate : Bool) (m : Mark) : ParseM Unit := do
  let p ← get
  if p.tagDirectives.any (·.1 == handle) then
    if !allowDuplicate then parseFail "found duplicate %TAG directive" m
  else set { p with tagDirectives := p.tagDirectives ++ [(handle, pre)] }

/-- Takes the directives before a document, then adds the default handles. -/
def processDirectives : ParseM Unit := do
  let mut seenVersion := false
  for _ in [0:(← get).scanner.fuel] do
    let t ← peekToken
    match t.kind with
    | .versionDirective major minor =>
      if seenVersion then parseFail "found duplicate %YAML directive" t.start
      if major != 1 || minor != 1 then parseFail "found incompatible YAML document" t.start
      seenVersion := true
      skipToken
    | .tagDirective handle pre =>
      addTagDirective handle pre false t.start
      skipToken
    | _ => break
  let t ← peekToken
  addTagDirective "!" "!" true t.start
  addTagDirective "!!" "tag:yaml.org,2002:" true t.start

/-- The start of the stream. -/
def parseStreamStart : ParseM Event := do
  let t ← peekToken
  if !t.kind.sameAs .streamStart then parseFail "did not find expected <stream-start>" t.start
  goTo .implicitDocumentStart
  skipToken
  return { kind := .streamStart, start := t.start, stop := t.stop }

/-- The start of a document, or of the stream's end. A document without `---` may only
come first. -/
def parseDocumentStart (implicit : Bool) : ParseM Event := do
  let mut t ← peekToken
  if !implicit then
    for _ in [0:(← get).scanner.fuel] do
      if !t.kind.sameAs .documentEnd then break
      skipToken
      t ← peekToken
  if implicit && !t.kind.isDirective && !t.kind.sameAs .documentStart && !t.kind.sameAs .streamEnd then
    processDirectives
    pushState .documentEnd
    goTo .blockNode
    return { kind := .documentStart, start := t.start, stop := t.stop }
  else if !t.kind.sameAs .streamEnd then
    let start := t.start
    processDirectives
    let d ← peekToken
    if !d.kind.sameAs .documentStart then parseFail "did not find expected <document start>" d.start
    pushState .documentEnd
    goTo .documentContent
    skipToken
    return { kind := .documentStart, start, stop := d.stop }
  else
    goTo .finished
    skipToken
    return { kind := .streamEnd, start := t.start, stop := t.stop }

/-- The content of a document after `---`, which may be empty. -/
def parseDocumentContentEmpty (t : Token) : ParseM (Option Event) := do
  if t.kind.isDirective || t.kind.sameAs .documentStart || t.kind.sameAs .documentEnd ||
      t.kind.sameAs .streamEnd then
    popState
    return some (emptyScalar t.start)
  return none

/-- The end of a document, with or without `...`. -/
def parseDocumentEnd : ParseM Event := do
  let t ← peekToken
  let stop ← if t.kind.sameAs .documentEnd then do skipToken; pure t.stop else pure t.start
  modify fun p => { p with tagDirectives := [] }
  goTo .documentStart
  return { kind := .documentEnd, start := t.start, stop }

/-- A node: an alias, or an optional anchor and tag before a scalar or collection. In a
block, `indentless` lets a sequence whose entries stand at the key's column be a mapping
value. -/
def parseNode (block indentless : Bool) : ParseM Event := do
  let t ← peekToken
  if let .reference name := t.kind then
    popState
    skipToken
    return { kind := .reference name, start := t.start, stop := t.stop }
  let mut t := t
  let mut start := t.start
  let mut stop := t.start
  let mut anchor := ""
  let mut tagged : Option (String × String × Mark) := none
  if let .anchor name := t.kind then
    anchor := name
    stop := t.stop
    skipToken
    t ← peekToken
    if let .tag h s := t.kind then
      tagged := some (h, s, t.start)
      stop := t.stop
      skipToken
      t ← peekToken
  else if let .tag h s := t.kind then
    tagged := some (h, s, t.start)
    start := t.start
    stop := t.stop
    skipToken
    t ← peekToken
    if let .anchor name := t.kind then
      anchor := name
      stop := t.stop
      skipToken
      t ← peekToken
  let tag ← match tagged with
    | none => pure ""
    | some ("", suffix, _) => pure suffix
    | some (handle, suffix, tagMark) =>
      match (← get).tagDirectives.lookup handle with
      | some pre => pure (pre ++ suffix)
      | none => parseFailIn "while parsing a node" start "found undefined tag handle" tagMark
  if indentless && t.kind.sameAs .blockEntry then
    goTo .indentlessSequenceEntry
    return { kind := .sequenceStart false, anchor, tag, start, stop := t.stop }
  match t.kind with
  | .scalar text style =>
    popState
    skipToken
    return { kind := .scalar text style, anchor, tag, start, stop := t.stop }
  | .flowSequenceStart =>
    goTo .flowSequenceFirstEntry
    return { kind := .sequenceStart true, anchor, tag, start, stop := t.stop }
  | .flowMappingStart =>
    goTo .flowMappingFirstKey
    return { kind := .mappingStart true, anchor, tag, start, stop := t.stop }
  | .blockSequenceStart =>
    if block then
      goTo .blockSequenceFirstEntry
      return { kind := .sequenceStart false, anchor, tag, start, stop := t.stop }
  | .blockMappingStart =>
    if block then
      goTo .blockMappingFirstKey
      return { kind := .mappingStart false, anchor, tag, start, stop := t.stop }
  | _ => pure ()
  if !anchor.isEmpty || !tag.isEmpty then
    popState
    return { kind := .scalar "" .plain, anchor, tag, start, stop }
  parseFailIn (if block then "while parsing a block node" else "while parsing a flow node") start
    "did not find expected node content" t.start

/-- An entry of a block sequence, or its end. -/
def parseBlockSequenceEntry (first : Bool) : ParseM Event := do
  if first then
    pushMark (← peekToken).start
    skipToken
  let t ← peekToken
  if t.kind.sameAs .blockEntry then
    skipToken
    let n ← peekToken
    if !n.kind.sameAs .blockEntry && !n.kind.sameAs .blockEnd then
      pushState .blockSequenceEntry
      parseNode true false
    else
      goTo .blockSequenceEntry
      return emptyScalar t.stop
  else if t.kind.sameAs .blockEnd then
    popState
    discard popMark
    skipToken
    return { kind := .sequenceEnd, start := t.start, stop := t.stop }
  else
    let m ← popMark
    parseFailIn "while parsing a block collection" m "did not find expected '-' indicator" t.start

/-- An entry of a sequence written at its mapping key's column, or its end. -/
def parseIndentlessSequenceEntry : ParseM Event := do
  let t ← peekToken
  if t.kind.sameAs .blockEntry then
    skipToken
    let n ← peekToken
    if !n.kind.sameAs .blockEntry && !n.kind.sameAs .key && !n.kind.sameAs .value &&
        !n.kind.sameAs .blockEnd then
      pushState .indentlessSequenceEntry
      parseNode true false
    else
      goTo .indentlessSequenceEntry
      return emptyScalar t.stop
  else
    popState
    return { kind := .sequenceEnd, start := t.start, stop := t.start }

/-- A key of a block mapping, or its end. -/
def parseBlockMappingKey (first : Bool) : ParseM Event := do
  if first then
    pushMark (← peekToken).start
    skipToken
  let t ← peekToken
  if t.kind.sameAs .key then
    skipToken
    let n ← peekToken
    if !n.kind.sameAs .key && !n.kind.sameAs .value && !n.kind.sameAs .blockEnd then
      pushState .blockMappingValue
      parseNode true true
    else
      goTo .blockMappingValue
      return emptyScalar t.stop
  else if t.kind.sameAs .blockEnd then
    popState
    discard popMark
    skipToken
    return { kind := .mappingEnd, start := t.start, stop := t.stop }
  else
    let m ← popMark
    parseFailIn "while parsing a block mapping" m "did not find expected key" t.start

/-- A value of a block mapping, which may be left out. -/
def parseBlockMappingValue : ParseM Event := do
  let t ← peekToken
  if t.kind.sameAs .value then
    skipToken
    let n ← peekToken
    if !n.kind.sameAs .key && !n.kind.sameAs .value && !n.kind.sameAs .blockEnd then
      pushState .blockMappingKey
      parseNode true true
    else
      goTo .blockMappingKey
      return emptyScalar t.stop
  else
    goTo .blockMappingKey
    return emptyScalar t.start

/-- An entry of a flow sequence, or its end; `key: value` in a flow sequence is a mapping
of one pair. -/
def parseFlowSequenceEntry (first : Bool) : ParseM Event := do
  if first then
    pushMark (← peekToken).start
    skipToken
  let mut t ← peekToken
  if !t.kind.sameAs .flowSequenceEnd then
    if !first then
      if t.kind.sameAs .flowEntry then
        skipToken
        t ← peekToken
      else
        let m ← popMark
        parseFailIn "while parsing a flow sequence" m "did not find expected ',' or ']'" t.start
    if t.kind.sameAs .key then
      goTo .flowSequenceEntryMappingKey
      skipToken
      return { kind := .mappingStart true, start := t.start, stop := t.stop }
    else if !t.kind.sameAs .flowSequenceEnd then
      pushState .flowSequenceEntry
      return (← parseNode false false)
  popState
  discard popMark
  skipToken
  return { kind := .sequenceEnd, start := t.start, stop := t.stop }

/-- The key of a one-pair mapping in a flow sequence. -/
def parseFlowSequenceEntryMappingKey : ParseM Event := do
  let t ← peekToken
  if !t.kind.sameAs .value && !t.kind.sameAs .flowEntry && !t.kind.sameAs .flowSequenceEnd then
    pushState .flowSequenceEntryMappingValue
    parseNode false false
  else
    skipToken
    goTo .flowSequenceEntryMappingValue
    return emptyScalar t.stop

/-- The value of a one-pair mapping in a flow sequence. -/
def parseFlowSequenceEntryMappingValue : ParseM Event := do
  let t ← peekToken
  if t.kind.sameAs .value then
    skipToken
    let n ← peekToken
    if !n.kind.sameAs .flowEntry && !n.kind.sameAs .flowSequenceEnd then
      pushState .flowSequenceEntryMappingEnd
      return (← parseNode false false)
  goTo .flowSequenceEntryMappingEnd
  return emptyScalar t.start

/-- The end of a one-pair mapping in a flow sequence. -/
def parseFlowSequenceEntryMappingEnd : ParseM Event := do
  let t ← peekToken
  goTo .flowSequenceEntry
  return { kind := .mappingEnd, start := t.start, stop := t.start }

/-- A key of a flow mapping, or its end. -/
def parseFlowMappingKey (first : Bool) : ParseM Event := do
  if first then
    pushMark (← peekToken).start
    skipToken
  let mut t ← peekToken
  if !t.kind.sameAs .flowMappingEnd then
    if !first then
      if t.kind.sameAs .flowEntry then
        skipToken
        t ← peekToken
      else
        let m ← popMark
        parseFailIn "while parsing a flow mapping" m "did not find expected ',' or '\x7d'" t.start
    if t.kind.sameAs .key then
      skipToken
      let n ← peekToken
      if !n.kind.sameAs .value && !n.kind.sameAs .flowEntry && !n.kind.sameAs .flowMappingEnd then
        pushState .flowMappingValue
        return (← parseNode false false)
      else
        goTo .flowMappingValue
        return emptyScalar n.start
    else if !t.kind.sameAs .flowMappingEnd then
      pushState .flowMappingEmptyValue
      return (← parseNode false false)
  popState
  discard popMark
  skipToken
  return { kind := .mappingEnd, start := t.start, stop := t.stop }

/-- A value of a flow mapping, which may be left out. -/
def parseFlowMappingValue (empty : Bool) : ParseM Event := do
  let t ← peekToken
  if empty then
    goTo .flowMappingKey
    return emptyScalar t.start
  if t.kind.sameAs .value then
    skipToken
    let n ← peekToken
    if !n.kind.sameAs .flowEntry && !n.kind.sameAs .flowMappingEnd then
      pushState .flowMappingKey
      return (← parseNode false false)
    goTo .flowMappingKey
    return emptyScalar n.start
  goTo .flowMappingKey
  return emptyScalar t.start

/-- The next event. After the stream's end there are no more; the stream end is repeated. -/
def nextEvent : ParseM Event := do
  match (← get).state with
  | .streamStart => parseStreamStart
  | .implicitDocumentStart => parseDocumentStart true
  | .documentStart => parseDocumentStart false
  | .documentContent =>
    match ← parseDocumentContentEmpty (← peekToken) with
    | some e => pure e
    | none => parseNode true false
  | .documentEnd => parseDocumentEnd
  | .blockNode => parseNode true false
  | .blockNodeOrIndentlessSequence => parseNode true true
  | .flowNode => parseNode false false
  | .blockSequenceFirstEntry => parseBlockSequenceEntry true
  | .blockSequenceEntry => parseBlockSequenceEntry false
  | .indentlessSequenceEntry => parseIndentlessSequenceEntry
  | .blockMappingFirstKey => parseBlockMappingKey true
  | .blockMappingKey => parseBlockMappingKey false
  | .blockMappingValue => parseBlockMappingValue
  | .flowSequenceFirstEntry => parseFlowSequenceEntry true
  | .flowSequenceEntry => parseFlowSequenceEntry false
  | .flowSequenceEntryMappingKey => parseFlowSequenceEntryMappingKey
  | .flowSequenceEntryMappingValue => parseFlowSequenceEntryMappingValue
  | .flowSequenceEntryMappingEnd => parseFlowSequenceEntryMappingEnd
  | .flowMappingFirstKey => parseFlowMappingKey true
  | .flowMappingKey => parseFlowMappingKey false
  | .flowMappingValue => parseFlowMappingValue false
  | .flowMappingEmptyValue => parseFlowMappingValue true
  | .finished =>
    let m := (← get).scanner.mark
    pure { kind := .streamEnd, start := m, stop := m }

end NorStore.Yaml
