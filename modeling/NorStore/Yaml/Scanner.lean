import NorStore.Yaml.Token

/-!
# Scanning YAML text into tokens

The scanner reads characters and queues tokens for the parser. Most tokens are recognised
by their first characters; the exception is the *simple key* (`key: value` without a `?`):
the scanner only knows that a scalar was a key when it meets the `:` after it, so it
remembers where a key could have begun and inserts the `KEY` token, and the
`BLOCK-MAPPING-START` of a new mapping, back into the queue at that place.

Block structure is carried by indentation. The scanner keeps a stack of indentation
columns; a key or sequence entry further right than the current column opens a block, and a
token at a column left of it closes blocks with `BLOCK-END` tokens.

The parser asks for a token only once the scanner has queued at least three, and while the
token at the head of the queue could still turn out to be a key; so a scanning failure can
be met a little before the parser reaches its place. Scanning stops at the first failure.

Every loop below advances through the text or stops, and runs at most once per character.
-/

namespace NorStore.Yaml

/-- A place where a simple key may have begun. -/
structure SimpleKey where
  /-- Whether a key may still begin here. -/
  possible : Bool := false
  /-- Whether a key must begin here: in a block, at the indentation column. -/
  required : Bool := false
  /-- The number of the token the key would come before. -/
  tokenNumber : Nat := 0
  /-- Where it began. -/
  mark : Mark := {}
  deriving Inhabited

/-- The state of the scanner. -/
structure Scanner where
  /-- The characters of the text, without a leading byte-order mark. -/
  text : Array Char
  /-- The position reached. -/
  mark : Mark := {}
  /-- Line breaks read since the last character that is not blank. -/
  newlines : Nat := 0
  /-- Tokens scanned and not yet taken by the parser, oldest first. -/
  queue : List Token := []
  /-- Tokens taken by the parser. -/
  parsed : Nat := 0
  /-- Whether the head of the queue may be taken. -/
  available : Bool := false
  /-- Whether the stream start was produced. -/
  started : Bool := false
  /-- Whether the parser took the stream end. -/
  ended : Bool := false
  /-- The current indentation column, `-1` outside any block. -/
  indent : Int := -1
  /-- The enclosing indentation columns, innermost first. -/
  indents : List Int := []
  /-- Whether a simple key may begin at the current position. -/
  keyAllowed : Bool := false
  /-- One possible simple key per flow level, outermost first. -/
  keys : Array SimpleKey := #[]
  /-- For the token numbers of possible keys, their place in `keys`. -/
  keyIndex : List (Nat × Nat) := []
  /-- How many flow collections are open. -/
  flowLevel : Nat := 0
  deriving Inhabited

/-- Scanning, which may fail. -/
abbrev ScanM := StateT Scanner (Except Error)

/-- Whether a character breaks a line. -/
def isBreak (c : Char) : Bool :=
  c == '\r' || c == '\n' || c == '\u0085' || c == '\u2028' || c == '\u2029'

/-- Whether a character is a space or a tab. -/
def isBlank (c : Char) : Bool :=
  c == ' ' || c == '\t'

/-- The character read past the end of the text. -/
def endChar : Char := '\x00'

/-- Whether a character breaks a line or ends the text. -/
def isBreakOrEnd (c : Char) : Bool :=
  isBreak c || c == endChar

/-- Whether a character is blank, breaks a line or ends the text. -/
def isBlankOrEnd (c : Char) : Bool :=
  isBlank c || isBreakOrEnd c

/-- Whether a character may be part of an anchor name or a tag handle. -/
def isWordChar (c : Char) : Bool :=
  c.isAlphanum || c == '_' || c == '-'

/-- Whether a character is a hexadecimal digit. -/
def isHexChar (c : Char) : Bool :=
  c.isDigit || ('a' ≤ c && c ≤ 'f') || ('A' ≤ c && c ≤ 'F')

/-- The value of a hexadecimal digit. -/
def hexValue (c : Char) : Nat :=
  if c.isDigit then c.toNat - 48
  else if 'a' ≤ c && c ≤ 'f' then c.toNat - 87
  else c.toNat - 55

namespace Scanner

/-- The character `k` places ahead. -/
def look (s : Scanner) (k : Nat) : Char :=
  s.text.getD (s.mark.index + k) endChar

/-- Whether the three characters ahead are `c` and the fourth ends a word: a document
marker. -/
def marker (s : Scanner) (c : Char) : Bool :=
  s.look 0 == c && s.look 1 == c && s.look 2 == c && isBlankOrEnd (s.look 3)

/-- A bound on the steps of any loop over the text. -/
def fuel (s : Scanner) : Nat :=
  s.text.size + 8

end Scanner

/-- The character `k` places ahead. -/
def ahead (k : Nat) : ScanM Char := do
  return (← get).look k

/-- Moves past one character that is not a line break. -/
def skip : ScanM Unit :=
  modify fun s =>
    { s with mark := { s.mark with index := s.mark.index + 1, column := s.mark.column + 1 },
             newlines := if isBlank (s.look 0) then s.newlines else 0 }

/-- Reads one character that is not a line break. -/
def readChar : ScanM Char := do
  let c ← ahead 0
  skip
  return c

/-- Moves past a line break; a CR LF pair is one break. -/
def skipLine : ScanM Unit :=
  modify fun s =>
    let width := if s.look 0 == '\r' && s.look 1 == '\n' then 2 else if isBreak (s.look 0) then 1 else 0
    if width == 0 then s
    else { s with mark := ⟨s.mark.index + width, s.mark.line + 1, 0⟩, newlines := s.newlines + 1 }

/-- Reads a line break as the text it stands for: a line or paragraph separator as itself,
any other break as a line feed. -/
def readLine : ScanM String := do
  let c ← ahead 0
  if c == '\u2028' || c == '\u2029' then
    skipLine
    return c.toString
  else if isBreak c then
    skipLine
    return "\n"
  else return ""

/-- Fails with a scanning problem at the current position. -/
def scanFail (context : String) (contextMark : Mark) (problem : String) : ScanM α := do
  throw { stage := .scanner, context, contextMark, problem, problemMark := (← get).mark }

/-- Appends a token to the queue. -/
def pushToken (t : Token) : ScanM Unit :=
  modify fun s => { s with queue := s.queue ++ [t] }

/-- Inserts a token `k` places after the head of the queue. -/
def insertToken (k : Nat) (t : Token) : ScanM Unit :=
  modify fun s => { s with queue := s.queue.insertIdx k t }

/-- Forgets the token number of a possible key. -/
def dropKeyIndex (n : Nat) : ScanM Unit :=
  modify fun s => { s with keyIndex := s.keyIndex.filter (·.1 != n) }

/-- Whether the possible key at place `i` is still possible. A key must stay on one line
and within 1024 characters; one that did not stops being possible, and if it was required
that is a failure. -/
def keyStillValid (i : Nat) : ScanM Bool := do
  let s ← get
  let k := s.keys.getD i {}
  if !k.possible then return false
  if k.mark.line < s.mark.line || k.mark.index + 1024 < s.mark.index then
    if k.required then
      scanFail "while scanning a simple key" k.mark "could not find expected ':'"
    set { s with keys := s.keys.modify i fun k => { k with possible := false } }
    return false
  return true

/-- Gives up the possible key of the current flow level; a required one may not be given
up. -/
def removeKey : ScanM Unit := do
  let s ← get
  let i := s.keys.size - 1
  let k := s.keys.getD i {}
  if k.possible then
    if k.required then
      scanFail "while scanning a simple key" k.mark "could not find expected ':'"
    set { s with keys := s.keys.modify i fun k => { k with possible := false } }
    dropKeyIndex k.tokenNumber

/-- Remembers that a simple key may begin at the current position, when one may. -/
def saveKey : ScanM Unit := do
  let s ← get
  if s.keyAllowed then
    let key : SimpleKey :=
      { possible := true, required := s.flowLevel == 0 && s.indent == (s.mark.column : Int),
        tokenNumber := s.parsed + s.queue.length, mark := s.mark }
    removeKey
    modify fun s =>
      let i := s.keys.size - 1
      { s with keys := s.keys.modify i fun _ => key,
               keyIndex := (key.tokenNumber, i) :: s.keyIndex.filter (·.1 != key.tokenNumber) }

/-- Opens a flow collection: a new level of possible keys. -/
def increaseFlowLevel : ScanM Unit :=
  modify fun s => { s with keys := s.keys.push { mark := s.mark }, flowLevel := s.flowLevel + 1 }

/-- Closes a flow collection. -/
def decreaseFlowLevel : ScanM Unit := do
  let s ← get
  if s.flowLevel > 0 then
    let top := s.keys.getD (s.keys.size - 1) {}
    set { s with flowLevel := s.flowLevel - 1, keys := s.keys.pop,
                 keyIndex := s.keyIndex.filter (·.1 != top.tokenNumber) }

/-- In a block, opens a block at `column` when it is right of the current one, with a token
of kind `kind` inserted before token number `number` (or appended). -/
def rollIndent (column : Int) (number : Option Nat) (kind : TokenKind) (mark : Mark) :
    ScanM Unit := do
  let s ← get
  if s.flowLevel == 0 && s.indent < column then
    set { s with indents := s.indent :: s.indents, indent := column }
    let t : Token := { kind, start := mark, stop := mark }
    match number with
    | some n => insertToken (n - s.parsed) t
    | none => pushToken t

/-- In a block, closes every block right of `column`, each with a `BLOCK-END` token placed
just before where the scan for the next token began. -/
def unrollIndent (column : Int) (scanMark : Mark) : ScanM Unit := do
  let s ← get
  if s.flowLevel == 0 then
    let blockMark := { scanMark with index := scanMark.index - 1 }
    for _ in [0:s.indents.length + 1] do
      let s ← get
      if s.indent > column then
        set { s with indent := s.indents.headD (-1), indents := s.indents.tail }
        pushToken { kind := .blockEnd, start := blockMark, stop := blockMark }
      else break

/-- Moves past blanks, comments and line breaks to the next token. A tab may not stand
where a simple key may begin in a block, since it would be taken for indentation. -/
def scanToNextToken : ScanM Unit := do
  let fuel := (← get).fuel
  for _ in [0:fuel] do
    let s ← get
    if s.mark.column == 0 && s.look 0 == '\uFEFF' then skip
    for _ in [0:fuel] do
      let s ← get
      if s.look 0 == ' ' || ((s.flowLevel > 0 || !s.keyAllowed) && s.look 0 == '\t') then skip
      else break
    if (← ahead 0) == '#' then
      for _ in [0:fuel] do
        if isBreakOrEnd (← ahead 0) then break
        skip
    if isBreak (← ahead 0) then
      skipLine
      modify fun s => if s.flowLevel == 0 then { s with keyAllowed := true } else s
    else break

/-- After a token, moves past a comment that ends its line, with the blanks before it. -/
def skipLineComment : ScanM Unit := do
  let s ← get
  if s.newlines == 0 then
    match (List.range 512).find? (fun k => !isBlank (s.look k)) with
    | some k =>
      if s.look k == '#' then
        for _ in [0:s.fuel] do
          if isBreakOrEnd (← ahead 0) then break
          skip
    | none => pure ()

/-- The stream start: no blocks, one level of possible keys. -/
def fetchStreamStart : ScanM Unit := do
  modify fun s => { s with indent := -1, keys := #[{}], keyIndex := [], keyAllowed := true,
                           started := true }
  let m := (← get).mark
  pushToken { kind := .streamStart, start := m, stop := m }

/-- The stream end, on a line of its own: every block closes. -/
def fetchStreamEnd : ScanM Unit := do
  modify fun s =>
    if s.mark.column != 0 then { s with mark := { s.mark with column := 0, line := s.mark.line + 1 } }
    else s
  unrollIndent (-1) (← get).mark
  removeKey
  modify fun s => { s with keyAllowed := false }
  let m := (← get).mark
  pushToken { kind := .streamEnd, start := m, stop := m }

/-- Reads the number of a `%YAML` directive: one or two digits. -/
def scanVersionNumber (start : Mark) : ScanM Nat := do
  let mut value := 0
  let mut length := 0
  for _ in [0:3] do
    let c ← ahead 0
    if !c.isDigit then break
    length := length + 1
    if length > 2 then
      scanFail "while scanning a %YAML directive" start "found extremely long version number"
    value := value * 10 + (c.toNat - 48)
    skip
  if length == 0 then
    scanFail "while scanning a %YAML directive" start "did not find expected version directive number"
  return value

/-- The context of a failure inside a tag or a `%TAG` directive. -/
def tagContext (directive : Bool) : String :=
  if directive then "while parsing a %TAG directive" else "while parsing a tag"

/-- Reads a tag handle: `!`, `!!` or `!word!`; outside a directive a `!word` that does not
end in `!` is returned as it is, to be read on as part of a suffix. -/
def scanTagHandle (directive : Bool) (start : Mark) : ScanM String := do
  if (← ahead 0) != '!' then
    scanFail (tagContext directive) start "did not find expected '!'"
  let mut s := (← readChar).toString
  for _ in [0:(← get).fuel] do
    if !isWordChar (← ahead 0) then break
    s := s.push (← readChar)
  if (← ahead 0) == '!' then
    s := s.push (← readChar)
  else if directive && s != "!" then
    scanFail (tagContext directive) start "did not find expected '!'"
  return s

/-- Whether a character may stand in a tag's URI; inside `!<…>` also `,`, `[` and `]`. -/
def isUriChar (verbatim : Bool) (c : Char) : Bool :=
  isWordChar c || ";/?:@&=+$.!~*'()%".toList.contains c ||
    (verbatim && (c == ',' || c == '[' || c == ']'))

/-- Reads `%XX` escapes that spell one UTF-8 character. -/
def scanUriEscapes (directive : Bool) (start : Mark) : ScanM (List UInt8) := do
  let mut out : List UInt8 := []
  let mut width := 0
  for i in [0:4] do
    if i > 0 && i ≥ width then break
    let s ← get
    if !(s.look 0 == '%' && isHexChar (s.look 1) && isHexChar (s.look 2)) then
      scanFail (tagContext directive) start "did not find URI escaped octet"
    let octet := hexValue (s.look 1) * 16 + hexValue (s.look 2)
    if i == 0 then
      width := if octet < 0x80 then 1 else if octet / 32 == 6 then 2 else if octet / 16 == 14 then 3
        else if octet / 8 == 30 then 4 else 0
      if width == 0 then
        scanFail (tagContext directive) start "found an incorrect leading UTF-8 octet"
    else if octet / 64 != 2 then
      scanFail (tagContext directive) start "found an incorrect trailing UTF-8 octet"
    out := out ++ [octet.toUInt8]
    skip; skip; skip
  return out

/-- Reads the URI part of a tag, after the characters `head` already read. -/
def scanTagUri (verbatim directive : Bool) (head : String) (start : Mark) : ScanM String := do
  let mut s := (head.drop 1).toString
  let mut found := head.length != 0
  for _ in [0:(← get).fuel] do
    let c ← ahead 0
    if !isUriChar verbatim c then break
    if c == '%' then
      let bytes ← scanUriEscapes directive start
      s := s ++ (String.fromUTF8? ⟨bytes.toArray⟩).getD ""
    else s := s.push (← readChar)
    found := true
  if !found then
    scanFail (tagContext directive) start "did not find expected tag URI"
  return s

/-- Reads a directive line: `%YAML` or `%TAG`. -/
def scanDirective : ScanM Token := do
  let start := (← get).mark
  skip
  let mut name := ""
  for _ in [0:(← get).fuel] do
    if !isWordChar (← ahead 0) then break
    name := name.push (← readChar)
  if name.isEmpty then
    scanFail "while scanning a directive" start "could not find expected directive name"
  if !isBlankOrEnd (← ahead 0) then
    scanFail "while scanning a directive" start "found unexpected non-alphabetical character"
  let kind ← if name == "YAML" then do
      for _ in [0:(← get).fuel] do
        if !isBlank (← ahead 0) then break
        skip
      let major ← scanVersionNumber start
      if (← ahead 0) != '.' then
        scanFail "while scanning a %YAML directive" start "did not find expected digit or '.' character"
      skip
      let minor ← scanVersionNumber start
      pure (TokenKind.versionDirective major minor)
    else if name == "TAG" then do
      for _ in [0:(← get).fuel] do
        if !isBlank (← ahead 0) then break
        skip
      let handle ← scanTagHandle true start
      if !isBlank (← ahead 0) then
        scanFail "while scanning a %TAG directive" start "did not find expected whitespace"
      for _ in [0:(← get).fuel] do
        if !isBlank (← ahead 0) then break
        skip
      let pre ← scanTagUri true true "" start
      if !isBlankOrEnd (← ahead 0) then
        scanFail "while scanning a %TAG directive" start "did not find expected whitespace or line break"
      pure (TokenKind.tagDirective handle pre)
    else scanFail "while scanning a directive" start "found unknown directive name"
  let stop := (← get).mark
  for _ in [0:(← get).fuel] do
    if !isBlank (← ahead 0) then break
    skip
  if (← ahead 0) == '#' then
    for _ in [0:(← get).fuel] do
      if isBreakOrEnd (← ahead 0) then break
      skip
  if !isBreakOrEnd (← ahead 0) then
    scanFail "while scanning a directive" start "did not find expected comment or line break"
  skipLine
  return { kind, start, stop }

/-- A directive: every block closes first. -/
def fetchDirective : ScanM Unit := do
  unrollIndent (-1) (← get).mark
  removeKey
  modify fun s => { s with keyAllowed := false }
  pushToken (← scanDirective)

/-- A document marker, `---` or `...`: every block closes first. -/
def fetchDocumentIndicator (kind : TokenKind) : ScanM Unit := do
  unrollIndent (-1) (← get).mark
  removeKey
  modify fun s => { s with keyAllowed := false }
  let start := (← get).mark
  skip; skip; skip
  pushToken { kind, start, stop := (← get).mark }

/-- Consumes one indicator character as a token. -/
def indicator (kind : TokenKind) : ScanM Unit := do
  let start := (← get).mark
  skip
  pushToken { kind, start, stop := (← get).mark }

/-- An opening `[` or `{`: it may be a key itself, and opens a flow level. -/
def fetchFlowStart (kind : TokenKind) : ScanM Unit := do
  saveKey
  increaseFlowLevel
  modify fun s => { s with keyAllowed := true }
  indicator kind

/-- A closing `]` or `}`: closes a flow level. -/
def fetchFlowEnd (kind : TokenKind) : ScanM Unit := do
  removeKey
  decreaseFlowLevel
  modify fun s => { s with keyAllowed := false }
  indicator kind

/-- A comma `,` between flow entries. -/
def fetchFlowEntry : ScanM Unit := do
  removeKey
  modify fun s => { s with keyAllowed := true }
  indicator .flowEntry

/-- A dash `-` before a block sequence entry; in a block it must stand where a key may. -/
def fetchBlockEntry : ScanM Unit := do
  let s ← get
  if s.flowLevel == 0 then
    if !s.keyAllowed then
      scanFail "" s.mark "block sequence entries are not allowed in this context"
    rollIndent s.mark.column none .blockSequenceStart s.mark
  removeKey
  modify fun s => { s with keyAllowed := true }
  indicator .blockEntry

/-- A question mark `?` before an explicit key. -/
def fetchKey : ScanM Unit := do
  let s ← get
  if s.flowLevel == 0 then
    if !s.keyAllowed then
      scanFail "" s.mark "mapping keys are not allowed in this context"
    rollIndent s.mark.column none .blockMappingStart s.mark
  removeKey
  modify fun s => { s with keyAllowed := s.flowLevel == 0 }
  indicator .key

/-- A colon `:` after a key. After a possible simple key this inserts the `KEY` token before the
key, and in a block the start of a mapping at the key's column; otherwise it follows an
explicit key, or stands alone where a key may. -/
def fetchValue : ScanM Unit := do
  let s ← get
  let i := s.keys.size - 1
  let key := s.keys.getD i {}
  if ← keyStillValid i then
    insertToken (key.tokenNumber - s.parsed) { kind := .key, start := key.mark, stop := key.mark }
    rollIndent key.mark.column (some key.tokenNumber) .blockMappingStart key.mark
    modify fun s => { s with keys := s.keys.modify i fun k => { k with possible := false },
                             keyAllowed := false }
    dropKeyIndex key.tokenNumber
  else
    let s ← get
    if s.flowLevel == 0 then
      if !s.keyAllowed then
        scanFail "" s.mark "mapping values are not allowed in this context"
      rollIndent s.mark.column none .blockMappingStart s.mark
    modify fun s => { s with keyAllowed := s.flowLevel == 0 }
  indicator .value

/-- Reads an anchor `&name` or an alias `*name`. -/
def scanAnchor (isReference : Bool) : ScanM Token := do
  let start := (← get).mark
  skip
  let mut name := ""
  for _ in [0:(← get).fuel] do
    if !isWordChar (← ahead 0) then break
    name := name.push (← readChar)
  let stop := (← get).mark
  let c ← ahead 0
  if name.isEmpty || !(isBlankOrEnd c || "?:,]\x7d%@`".toList.contains c) then
    scanFail (if isReference then "while scanning an alias" else "while scanning an anchor") start
      "did not find expected alphabetic or numeric character"
  return { kind := if isReference then .reference name else .anchor name, start, stop }

/-- An anchor or alias; it may be a key. -/
def fetchAnchor (isReference : Bool) : ScanM Unit := do
  saveKey
  modify fun s => { s with keyAllowed := false }
  pushToken (← scanAnchor isReference)

/-- Reads a tag: `!<uri>`, `!suffix`, `!handle!suffix` or a lone `!`. -/
def scanTag : ScanM Token := do
  let start := (← get).mark
  let (handle, suffix) ← if (← ahead 1) == '<' then do
      skip; skip
      let suffix ← scanTagUri true false "" start
      if (← ahead 0) != '>' then
        scanFail "while scanning a tag" start "did not find the expected '>'"
      skip
      pure ("", suffix)
    else do
      let handle ← scanTagHandle false start
      if handle.length > 1 && handle.front == '!' && handle.back == '!' then
        pure (handle, ← scanTagUri false false "" start)
      else
        let suffix ← scanTagUri false false handle start
        if suffix.isEmpty then pure ("", "!") else pure ("!", suffix)
  let s ← get
  if !isBlankOrEnd (s.look 0) && !(s.flowLevel > 0 && s.look 0 == ',') then
    scanFail "while scanning a tag" start "did not find expected whitespace or line break"
  return { kind := .tag handle suffix, start, stop := s.mark }

/-- A tag; it may be a key. -/
def fetchTag : ScanM Unit := do
  saveKey
  modify fun s => { s with keyAllowed := false }
  pushToken (← scanTag)

/-- Moves past indentation and empty lines inside a block scalar, collecting the line
breaks, and settles the indentation when it is not yet known: the deepest blank
indentation seen, at least one more than the enclosing block and at least one. -/
def scanBlockBreaks (indent : Nat) (start : Mark) : ScanM (Nat × String × Mark) := do
  let mut breaks := ""
  let mut stop := (← get).mark
  let mut deepest := 0
  let fuel := (← get).fuel
  for _ in [0:fuel] do
    for _ in [0:fuel] do
      let s ← get
      if (indent == 0 || s.mark.column < indent) && s.look 0 == ' ' then skip else break
    let s ← get
    if s.mark.column > deepest then deepest := s.mark.column
    if (indent == 0 || s.mark.column < indent) && s.look 0 == '\t' then
      scanFail "while scanning a block scalar" start
        "found a tab character where an indentation space is expected"
    if !isBreak (s.look 0) then break
    breaks := breaks ++ (← readLine)
    stop := (← get).mark
  if indent == 0 then
    let outer := (← get).indent + 1
    let settled := max (max (deepest : Int) outer) 1
    return (settled.toNat, breaks, stop)
  return (indent, breaks, stop)

/-- Reads a literal (`|`) or folded (`>`) block scalar with its header. -/
def scanBlockScalar (literal : Bool) : ScanM Token := do
  let start := (← get).mark
  skip
  let mut chomping : Int := 0
  let mut increment := 0
  let c ← ahead 0
  if c == '+' || c == '-' then
    chomping := if c == '+' then 1 else -1
    skip
    let d ← ahead 0
    if d.isDigit then
      if d == '0' then
        scanFail "while scanning a block scalar" start "found an indentation indicator equal to 0"
      increment := d.toNat - 48
      skip
  else if c.isDigit then
    if c == '0' then
      scanFail "while scanning a block scalar" start "found an indentation indicator equal to 0"
    increment := c.toNat - 48
    skip
    let d ← ahead 0
    if d == '+' || d == '-' then
      chomping := if d == '+' then 1 else -1
      skip
  let fuel := (← get).fuel
  for _ in [0:fuel] do
    if !isBlank (← ahead 0) then break
    skip
  if (← ahead 0) == '#' then
    for _ in [0:fuel] do
      if isBreakOrEnd (← ahead 0) then break
      skip
  if !isBreakOrEnd (← ahead 0) then
    scanFail "while scanning a block scalar" start "did not find expected comment or line break"
  skipLine
  let outer := (← get).indent
  let given : Nat := if increment > 0 then (if outer ≥ 0 then (outer + increment).toNat else increment)
    else 0
  let (indent, firstBreaks, firstStop) ← scanBlockBreaks given start
  let mut text := ""
  let mut leadingBreak := ""
  let mut trailingBreaks := firstBreaks
  let mut stop := firstStop
  let mut leadingBlank := false
  for _ in [0:fuel] do
    let s ← get
    if !(s.mark.column == indent && s.look 0 != endChar) then break
    let trailingBlank := isBlank (s.look 0)
    if !literal && !leadingBlank && !trailingBlank && !leadingBreak.isEmpty && leadingBreak.front == '\n' then
      if trailingBreaks.isEmpty then text := text.push ' '
    else text := text ++ leadingBreak
    leadingBreak := ""
    text := text ++ trailingBreaks
    trailingBreaks := ""
    leadingBlank := isBlank (s.look 0)
    for _ in [0:fuel] do
      if isBreakOrEnd (← ahead 0) then break
      text := text.push (← readChar)
    leadingBreak := leadingBreak ++ (← readLine)
    let (_, more, moreStop) ← scanBlockBreaks indent start
    trailingBreaks := more
    stop := moreStop
  if chomping != -1 then text := text ++ leadingBreak
  if chomping == 1 then text := text ++ trailingBreaks
  return { kind := .scalar text (if literal then .literal else .folded), start, stop }

/-- A block scalar; a key may follow it. -/
def fetchBlockScalar (literal : Bool) : ScanM Unit := do
  removeKey
  modify fun s => { s with keyAllowed := true }
  pushToken (← scanBlockScalar literal)

/-- The characters an escape in a double-quoted scalar stands for, or the number of hex
digits that follow it. -/
def escapeOf : Char → Option (String ⊕ Nat)
  | '0' => some (.inl "\x00")
  | 'a' => some (.inl "\x07")
  | 'b' => some (.inl "\x08")
  | 't' | '\t' => some (.inl "\t")
  | 'n' => some (.inl "\n")
  | 'v' => some (.inl "\x0b")
  | 'f' => some (.inl "\x0c")
  | 'r' => some (.inl "\r")
  | 'e' => some (.inl "\x1b")
  | ' ' => some (.inl " ")
  | '"' => some (.inl "\"")
  | '\'' => some (.inl "'")
  | '\\' => some (.inl "\\")
  | 'N' => some (.inl "\u0085")
  | '_' => some (.inl "\u00A0")
  | 'L' => some (.inl "\u2028")
  | 'P' => some (.inl "\u2029")
  | 'x' => some (.inr 2)
  | 'u' => some (.inr 4)
  | 'U' => some (.inr 8)
  | _ => none

/-- Reads a single- or double-quoted scalar. Line breaks inside fold to spaces, and a
document marker at the start of a line or the end of the text is a failure. -/
def scanQuoted (single : Bool) : ScanM Token := do
  let start := (← get).mark
  skip
  let quote := if single then '\'' else '"'
  let mut text := ""
  let mut leadingBreak := ""
  let mut trailingBreaks := ""
  let mut whitespaces := ""
  let fuel := (← get).fuel
  for _ in [0:fuel] do
    let s ← get
    if s.mark.column == 0 && (s.marker '-' || s.marker '.') then
      scanFail "while scanning a quoted scalar" start "found unexpected document indicator"
    if s.look 0 == endChar then
      scanFail "while scanning a quoted scalar" start "found unexpected end of stream"
    let mut leadingBlanks := false
    for _ in [0:fuel] do
      let s ← get
      let c := s.look 0
      if isBlankOrEnd c then break
      if single && c == '\'' && s.look 1 == '\'' then
        text := text.push '\''
        skip; skip
      else if c == quote then break
      else if !single && c == '\\' && isBreak (s.look 1) then
        skip
        skipLine
        leadingBlanks := true
        break
      else if !single && c == '\\' then
        match escapeOf (s.look 1) with
        | none => scanFail "while parsing a quoted scalar" start "found unknown escape character"
        | some (.inl t) =>
          text := text ++ t
          skip; skip
        | some (.inr width) =>
          skip; skip
          let s ← get
          let digits := (List.range width).map s.look
          if !digits.all isHexChar then
            scanFail "while parsing a quoted scalar" start "did not find expected hexdecimal number"
          let v := digits.foldl (fun v c => v * 16 + hexValue c) 0
          if (0xD800 ≤ v && v ≤ 0xDFFF) || v > 0x10FFFF then
            scanFail "while parsing a quoted scalar" start "found invalid Unicode character escape code"
          text := text.push (Char.ofNat v)
          for _ in [0:width] do skip
      else text := text.push (← readChar)
    if (← ahead 0) == quote then break
    for _ in [0:fuel] do
      let c ← ahead 0
      if !(isBlank c || isBreak c) then break
      if isBlank c then
        if !leadingBlanks then whitespaces := whitespaces.push (← readChar) else skip
      else if !leadingBlanks then
        whitespaces := ""
        leadingBreak := leadingBreak ++ (← readLine)
        leadingBlanks := true
      else trailingBreaks := trailingBreaks ++ (← readLine)
    if leadingBlanks then
      if leadingBreak.front == '\n' && !leadingBreak.isEmpty then
        text := if trailingBreaks.isEmpty then text.push ' ' else text ++ trailingBreaks
      else text := text ++ leadingBreak ++ trailingBreaks
      leadingBreak := ""
      trailingBreaks := ""
    else
      text := text ++ whitespaces
      whitespaces := ""
  skip
  return { kind := .scalar text (if single then .singleQuoted else .doubleQuoted), start,
           stop := (← get).mark }

/-- A quoted scalar; it may be a key. -/
def fetchQuoted (single : Bool) : ScanM Unit := do
  saveKey
  modify fun s => { s with keyAllowed := false }
  pushToken (← scanQuoted single)

/-- Reads a plain scalar. It ends before `: `, before ` #`, at a document marker, in a flow
collection before a flow indicator, and in a block at a line less indented than the
enclosing block; its line breaks fold to spaces. -/
def scanPlain : ScanM Token := do
  let indent := (← get).indent + 1
  let start := (← get).mark
  let mut stop := start
  let mut text := ""
  let mut leadingBreak := ""
  let mut trailingBreaks := ""
  let mut whitespaces := ""
  let mut leadingBlanks := false
  let fuel := (← get).fuel
  for _ in [0:fuel] do
    let s ← get
    if s.mark.column == 0 && (s.marker '-' || s.marker '.') then break
    if s.look 0 == '#' then break
    for _ in [0:fuel] do
      let s ← get
      let c := s.look 0
      if isBlankOrEnd c then break
      if (c == ':' && isBlankOrEnd (s.look 1)) ||
          (s.flowLevel > 0 && (c == ',' || c == '?' || c == '[' || c == ']' || c == '{' || c == '}')) then
        break
      if leadingBlanks || !whitespaces.isEmpty then
        if leadingBlanks then
          if leadingBreak.front == '\n' then
            text := if trailingBreaks.isEmpty then text.push ' ' else text ++ trailingBreaks
          else text := text ++ leadingBreak ++ trailingBreaks
          trailingBreaks := ""
          leadingBreak := ""
          leadingBlanks := false
        else
          text := text ++ whitespaces
          whitespaces := ""
      text := text.push (← readChar)
      stop := (← get).mark
    let c ← ahead 0
    if !(isBlank c || isBreak c) then break
    for _ in [0:fuel] do
      let s ← get
      let c := s.look 0
      if !(isBlank c || isBreak c) then break
      if isBlank c then
        if leadingBlanks && (s.mark.column : Int) < indent && c == '\t' then
          scanFail "while scanning a plain scalar" start "found a tab character that violates indentation"
        if !leadingBlanks then whitespaces := whitespaces.push (← readChar) else skip
      else if !leadingBlanks then
        whitespaces := ""
        leadingBreak := leadingBreak ++ (← readLine)
        leadingBlanks := true
      else trailingBreaks := trailingBreaks ++ (← readLine)
    let s ← get
    if s.flowLevel == 0 && (s.mark.column : Int) < indent then break
  if leadingBlanks then modify fun s => { s with keyAllowed := true }
  return { kind := .scalar text .plain, start, stop }

/-- A plain scalar; it may be a key. -/
def fetchPlain : ScanM Unit := do
  saveKey
  modify fun s => { s with keyAllowed := false }
  pushToken (← scanPlain)

/-- Whether a character may begin a plain scalar here: anything but blanks and indicators,
and `-`, `?` or `:` before a character that is not blank. -/
def startsPlain (s : Scanner) : Bool :=
  let c := s.look 0
  let n := s.look 1
  !(isBlankOrEnd c || "-?:,[]\x7b\x7d#&*!|>'\"%@`".toList.contains c) ||
    (c == '-' && !isBlank n) ||
    (s.flowLevel == 0 && (c == '?' || c == ':') && !isBlankOrEnd n)

/-- Scans the token that begins at the current character, after blanks and comments. -/
def fetchContent : ScanM Unit := do
  let s ← get
  let c := s.look 0
  let n := s.look 1
  if c == '[' then fetchFlowStart .flowSequenceStart
  else if c == '{' then fetchFlowStart .flowMappingStart
  else if c == ']' then fetchFlowEnd .flowSequenceEnd
  else if c == '}' then fetchFlowEnd .flowMappingEnd
  else if c == ',' then fetchFlowEntry
  else if c == '-' && isBlankOrEnd n then fetchBlockEntry
  else if c == '?' && (s.flowLevel > 0 || isBlankOrEnd n) then fetchKey
  else if c == ':' && (s.flowLevel > 0 || isBlankOrEnd n) then fetchValue
  else if c == '*' then fetchAnchor true
  else if c == '&' then fetchAnchor false
  else if c == '!' then fetchTag
  else if c == '|' && s.flowLevel == 0 then fetchBlockScalar true
  else if c == '>' && s.flowLevel == 0 then fetchBlockScalar false
  else if c == '\'' then fetchQuoted true
  else if c == '"' then fetchQuoted false
  else if startsPlain s then fetchPlain
  else scanFail "while scanning for the next token" s.mark "found character that cannot start any token"

/-- Scans the next token. -/
def fetchNext : ScanM Unit := do
  if !(← get).started then
    fetchStreamStart
    return
  let scanMark := (← get).mark
  scanToNextToken
  unrollIndent (← get).mark.column scanMark
  let s ← get
  if s.look 0 == endChar then fetchStreamEnd
  else if s.mark.column == 0 && s.look 0 == '%' then fetchDirective
  else if s.mark.column == 0 && s.marker '-' then fetchDocumentIndicator .documentStart
  else if s.mark.column == 0 && s.marker '.' then fetchDocumentIndicator .documentEnd
  else
    fetchContent
    match (← get).queue.getLast? with
    | some t => if !t.kind.sameAs .blockEntry then skipLineComment
    | none => skipLineComment

/-- Scans until the head of the queue may be taken: at least three tokens are queued, and
the head is not a token a simple key could still be inserted before. -/
def fetchMore : ScanM Unit := do
  for _ in [0:(← get).fuel * 2 + 8] do
    let s ← get
    if s.queue.length > 2 then
      match s.keyIndex.lookup s.parsed with
      | none => break
      | some i => if !(← keyStillValid i) then break
    fetchNext
  modify fun s => { s with available := true }

end NorStore.Yaml
