import FlowPack.Yaml.Token.Block
import FlowPack.Yaml.Token.Tag

namespace FlowPack.Yaml

/-- A place where a mapping key may have begun. -/
structure PossibleKey where
  /-- Whether nothing but a key can stand there. -/
  required : Bool
  position : Nat
  mark : Mark
  deriving DecidableEq, Repr

structure Lexer where
  cursor : Cursor
  /-- The tokens read so far, newest first. -/
  tokens : List Token := []
  indent : Int := -1
  indents : List Int := []
  keyAllowed : Bool := true
  key : Option PossibleKey := none
  /-- The possible keys around each open bracket. -/
  outer : List (Option PossibleKey) := []
  deriving DecidableEq, Repr

def keyReach : Nat := 1024

def commentReach : Nat := 512

namespace Cursor

/-- Pass a comment and all comments that follow with nothing but white space between. -/
def skipComments : Nat → Cursor → Cursor
  | 0, c => c
  | n + 1, c =>
    let c := c.skipLine
    match c.rest with
    | [] => c
    | b :: rest =>
      let isWhite (x : Char) : Bool := x == ' ' || x == '\t' || x == '\n' || x == '\r'
      let k := (rest.takeWhile isWhite).length + 1
      if isWhite b && k < commentReach && c.rest[k]? == some '#' then
        skipComments n (skipTo (c.mark.index + k) k c)
      else c

def skipLineComment (c : Cursor) : Cursor :=
  if c.afterBreak then c
  else
    let (run, after) := c.span isBlank
    if run.length < commentReach && after.next? == some '#' then after.skipLine else c

/-- Pass blanks, comments and line breaks before a token. Also tells whether a key may begin
after them. -/
def skipGap (inFlow : Bool) : Nat → Bool → Cursor → Bool × Cursor
  | 0, keyAllowed, c => (keyAllowed, c)
  | n + 1, keyAllowed, c =>
    let c := if c.mark.column == 0 && c.next? == some (Char.ofNat 0xFEFF) then c.skip 1 else c
    let c := c.skipWhile fun x => x == ' ' || ((inFlow || !keyAllowed) && x == '\t')
    let c := if c.next? == some '#' then skipComments (c.rest.length + 1) c else c
    match c.next? with
    | some x =>
      if isBreak x then skipGap inFlow n (keyAllowed || !inFlow) c.takeBreak.2
      else (keyAllowed, c)
    | none => (keyAllowed, c)

end Cursor

namespace Lexer

def inFlow (l : Lexer) : Bool := !l.outer.isEmpty

def push (l : Lexer) (kind : TokenKind) (line : Nat) : Lexer :=
  { l with tokens := ⟨kind, line⟩ :: l.tokens }

def insert (l : Lexer) (position : Nat) (kind : TokenKind) (line : Nat) : Lexer :=
  { l with tokens := l.tokens.insertIdx (l.tokens.length - position) ⟨kind, line⟩ }

def roll (l : Lexer) (mark : Mark) (position : Nat) (kind : TokenKind) : Lexer :=
  if !l.inFlow && l.indent < mark.column then
    { l.insert position kind mark.line with
      indent := mark.column, indents := l.indent :: l.indents }
  else l

def closeBlocks (column : Int) (line : Nat) : Int → List Int → List Token →
    Int × List Int × List Token
  | indent, [], tokens => (indent, [], tokens)
  | indent, up :: more, tokens =>
    if column < indent then closeBlocks column line up more (⟨.blockEnd, line⟩ :: tokens)
    else (indent, up :: more, tokens)

def unroll (l : Lexer) (column : Int) : Lexer :=
  if l.inFlow then l
  else
    let (indent, indents, tokens) :=
      closeBlocks column l.cursor.mark.line l.indent l.indents l.tokens
    { l with indent, indents, tokens }

/-- Give up the possible key of this level, unless it is required. -/
def dropKey? (l : Lexer) : Option Lexer :=
  match l.key with
  | some k => if k.required then none else some { l with key := none }
  | none => some l

def saveKey? (l : Lexer) : Option Lexer :=
  if l.keyAllowed then
    let key : PossibleKey :=
      { required := !l.inFlow && l.indent == l.cursor.mark.column
        position := l.tokens.length
        mark := l.cursor.mark }
    (dropKey? l).map fun l => { l with key := some key }
  else some l

/-- The possible key, if the cursor is still near enough to it; a required key must be. -/
def liveKey? (l : Lexer) : Option (Option PossibleKey) :=
  match l.key with
  | none => some none
  | some k =>
    let mark := l.cursor.mark
    if k.mark.line < mark.line || k.mark.index + keyReach < mark.index then
      if k.required then none else some none
    else some (some k)

def indicator (l : Lexer) (n : Nat) (kind : TokenKind) (keyAllowed : Bool) : Lexer :=
  let line := l.cursor.mark.line
  { l.push kind line with cursor := l.cursor.skip n, keyAllowed }

def streamEnd? (l : Lexer) : Option Lexer :=
  (dropKey? (l.unroll (-1))).map fun l =>
    let mark := l.cursor.mark
    l.push .streamEnd (if mark.column == 0 then mark.line else mark.line + 1)

def directive? (l : Lexer) : Option Lexer := do
  let l ← dropKey? (l.unroll (-1))
  let line := l.cursor.mark.line
  let (kind, cursor) ← Directive.read? l.cursor
  return { l.push kind line with cursor, keyAllowed := false }

def documentEdge? (l : Lexer) (kind : TokenKind) : Option Lexer :=
  (dropKey? (l.unroll (-1))).map fun l => l.indicator 3 kind false

def openBracket? (l : Lexer) (kind : TokenKind) : Option Lexer :=
  (saveKey? l).map fun l =>
    { l.indicator 1 kind true with key := none, outer := l.key :: l.outer }

def closeBracket? (l : Lexer) (kind : TokenKind) : Option Lexer :=
  (dropKey? l).map fun l =>
    let l := match l.outer with
      | [] => l
      | k :: rest => { l with key := k, outer := rest }
    l.indicator 1 kind false

def comma? (l : Lexer) : Option Lexer := (dropKey? l).map fun l => l.indicator 1 .comma true

def entry? (l : Lexer) : Option Lexer :=
  if !l.inFlow && !l.keyAllowed then none
  else
    let l := l.roll l.cursor.mark l.tokens.length .blockSequence
    (dropKey? l).map fun l => l.indicator 1 .entry true

def explicitKey? (l : Lexer) : Option Lexer :=
  if !l.inFlow && !l.keyAllowed then none
  else
    let l := l.roll l.cursor.mark l.tokens.length .blockMapping
    (dropKey? l).map fun l => l.indicator 1 .key (!l.inFlow)

def value? (l : Lexer) : Option Lexer :=
  match l.liveKey? with
  | none => none
  | some (some k) =>
    let l := l.insert k.position .key k.mark.line
    let l := l.roll k.mark k.position .blockMapping
    some ({ l with key := none }.indicator 1 .value false)
  | some none =>
    if !l.inFlow && !l.keyAllowed then none
    else
      let l := l.roll l.cursor.mark l.tokens.length .blockMapping
      some ({ l with key := none }.indicator 1 .value (!l.inFlow))

def anchor? (l : Lexer) (kind : List Char → TokenKind) : Option Lexer := do
  let l ← saveKey? l
  let (name, cursor) ← anchorName? l.cursor
  return { l.push (kind name) l.cursor.mark.line with cursor, keyAllowed := false }

def tag? (l : Lexer) : Option Lexer := do
  let l ← saveKey? l
  let (name, cursor) ← TagName.read? l.cursor
  return { l.push (.tag name) l.cursor.mark.line with cursor, keyAllowed := false }

def blockScalar? (l : Lexer) (folds : Bool) : Option Lexer := do
  let l ← dropKey? l
  let r ← Block.read folds l.indent l.cursor
  return { l.push (.scalar false r.text) l.cursor.mark.line with
    cursor := r.cursor, keyAllowed := true }

def quotedScalar? (l : Lexer) (quote : Char) : Option Lexer := do
  let l ← saveKey? l
  let r ← Quoted.read quote l.cursor
  return { l.push (.scalar false r.text) l.cursor.mark.line with
    cursor := r.cursor, keyAllowed := false }

def plainScalar? (l : Lexer) : Option Lexer := do
  let l ← saveKey? l
  let (r, endedLine) ← Plain.read l.inFlow l.indent l.cursor
  return { l.push (.scalar true r.text) l.cursor.mark.line with
    cursor := r.cursor, keyAllowed := endedLine }

def beginsPlain (inFlow : Bool) (x : Char) (next : Option Char) : Bool :=
  if isBlank x then false
  else if x == '-' then !(next.map isBlank).getD false
  else if x == '?' || x == ':' then !inFlow && !separates next
  else !(",[]\x7b\x7d#&*!|>\"%@".toList.contains x || x == Quoted.apostrophe || x.toNat == 0x60)

def token? (l : Lexer) (x : Char) : Option Lexer :=
  let next := l.cursor.second?
  if x == '[' then l.openBracket? .openList
  else if x == '\x7b' then l.openBracket? .openMap
  else if x == ']' then l.closeBracket? .closeList
  else if x == '\x7d' then l.closeBracket? .closeMap
  else if x == ',' then l.comma?
  else if x == '-' && separates next then l.entry?
  else if x == '?' && (l.inFlow || separates next) then l.explicitKey?
  else if x == ':' && (l.inFlow || separates next) then l.value?
  else if x == '*' then l.anchor? .byName
  else if x == '&' then l.anchor? .anchor
  else if x == '!' then l.tag?
  else if x == '|' && !l.inFlow then l.blockScalar? false
  else if x == '>' && !l.inFlow then l.blockScalar? true
  else if x == '"' || x == Quoted.apostrophe then l.quotedScalar? x
  else if beginsPlain l.inFlow x next then l.plainScalar?
  else none

def finishLine (l : Lexer) : Lexer :=
  match l.tokens with
  | ⟨.entry, _⟩ :: _ => l
  | _ => { l with cursor := l.cursor.skipLineComment }

/-- Read one more token. Tells also whether it was the last. -/
def step? (l : Lexer) : Option (Lexer × Bool) :=
  let (keyAllowed, cursor) :=
    Cursor.skipGap l.inFlow (l.cursor.rest.length + 1) l.keyAllowed l.cursor
  let l := { l with keyAllowed, cursor }
  let l := l.unroll cursor.mark.column
  match cursor.rest with
  | [] => l.streamEnd?.map (·, true)
  | x :: _ =>
    if cursor.mark.column == 0 && x == '%' then l.directive?.map (·, false)
    else if cursor.atIndicator '-' then (l.documentEdge? .documentStart).map (·, false)
    else if cursor.atIndicator '.' then (l.documentEdge? .documentEnd).map (·, false)
    else (l.token? x).map fun l => (l.finishLine, false)

def run : Nat → Lexer → List Token × Bool
  | 0, l => (l.tokens.reverse, false)
  | n + 1, l =>
    match l.step? with
    | none => (l.tokens.reverse, false)
    | some (l, true) => (l.tokens.reverse, true)
    | some (l, false) => run n l

end Lexer

/-- The tokens of a document up to its end or to the first place that cannot be read. -/
structure TokenStream where
  tokens : List Token
  complete : Bool
  deriving DecidableEq, Repr

def TokenStream.read (cs : List Char) : TokenStream :=
  let (tokens, complete) := Lexer.run (cs.length + 1) { cursor := { rest := cs } }
  ⟨tokens, complete⟩

end FlowPack.Yaml
