import XPathScan.Scan.Token
import XPathScan.Settings
import XPathScan.Token.Pool
import XPathScan.Trivia

/-!
# The lexer

A lexer gives the tokens of its input one by one. Each call steps over blanks and comments, scans
one token, and starts a new lexeme behind it, which is when input is read.

* `XPathScan.Lexer.next` – the next token. At the end of the input that is a token of kind `eof`,
  again and again. After an error there is no token any more, and every call says so.
* `XPathScan.Lexer.next?` – the next token before the end; an error is given once, and then there
  is nothing.

Both give the lexer back also when they fail: how often the source was read, which records the
pool has made, and where the lexer stands can still be seen.
-/

namespace XPathScan

/-- **Where a lexer is in its life.** -/
inductive Phase where
  /-- There may be tokens to come. -/
  | active
  /-- The end of the input has been reached. -/
  | exhausted
  /-- A call has failed. -/
  | failed
  deriving DecidableEq, Repr

/-- **A lexer.** -/
structure Lexer (σ : Type) (n : Nat) where
  /-- The input, and the place of the next token's trivia in it. -/
  cursor : Cursor σ n
  /-- The byte classes. -/
  classes : ByteClass
  /-- The language. -/
  dialect : Dialect
  /-- The records for tokens. -/
  pool : Pool := {}
  /-- Where the lexer is in its life. -/
  phase : Phase := .active

namespace Lexer

variable {σ : Type} {n : Nat}

/-- **A lexer at the start of a source.** -/
def ofSource [Source σ] (source : σ) (settings : Settings) (classes : ByteClass) :
    Except LexError (Lexer σ settings.bufferSize) :=
  match settings.validate with
  | .error e => .error (.configuration e)
  | .ok _ =>
    match Input.ofSource source settings.bufferSize with
    | .error e => .error (.ofInput e)
    | .ok input =>
      .ok { cursor := { input }, classes, dialect := .ofVersion settings.version }

/-- The point at which the trivia before the next token start. -/
def position (l : Lexer σ n) : Position := l.cursor.position

/-- The source, as far as it has not been read. -/
def source (l : Lexer σ n) : σ := l.cursor.input.source

/-- **Hand a token back**, so that its record can be used again. -/
def release (l : Lexer σ n) (token : Token) : Lexer σ n := { l with pool := l.pool.release token }

/-! ### Scanning -/

/-- The lexer's error for a scanner's, at the start of the token. -/
def ofScanError (start : Position) : ScanError → LexError
  | .overflow o => .configuration (.overflow o)
  | .malformed m => .malformed m start
  | .fault f => .fault f

/-- **The flags of a token**: what the trivia left, whether it is the first on its line, and
whether it stands right behind another token. -/
def tokenFlags (trivia : Flags) (c : Cursor σ n) : Flags :=
  let lineStart := if c.place.lineHasToken then Flags.none else .lineStart
  let apart := Flags.spaceBefore ||| .newlineBefore ||| .commentBefore
  let adjacent :=
    if 0 < c.position.offset && !trivia.meets apart then Flags.adjacent else .none
  trivia ||| lineStart ||| adjacent

/-- The record of a token, filled in: its kind, its lexeme as it stands in the window, where it
started, and its flags. -/
def fillIn (record : Token) (kind : Kind) (start : Position) (flags : Flags) (w : Window n) :
    Token :=
  { kind
    lexeme := record.lexeme ++ w.lexeme
    span := { start := start.offset, stop := w.pos }
    line := start.line
    column := start.column
    flags }

/-- **Scan one token.** -/
def scan [Source σ] (l : Lexer σ n) : EStateM.Result LexError (Lexer σ n) Token :=
  match Trivia.skip l.classes l.dialect.version .none l.cursor with
  | .error e cursor => .error e { l with cursor }
  | .ok trivia cursor =>
    match Scan.token l.dialect l.classes cursor.input.window with
    | .error e window =>
      .error (ofScanError cursor.position e)
        { l with cursor := { cursor with input := { cursor.input with window } } }
    | .ok kind window =>
      let (record, pool) := l.pool.acquire
      let token := fillIn record kind cursor.position (tokenFlags trivia cursor) window
      let place := cursor.place.pastToken token.lexeme
      match Input.mark { cursor.input with window } with
      | .error failure input => .error (.read failure) { l with cursor := { input, place }, pool }
      | .ok _ input => .ok token { l with cursor := { input, place }, pool }

/-- **The next token.** -/
def next [Source σ] (l : Lexer σ n) : EStateM.Result LexError (Lexer σ n) Token :=
  if l.phase = .failed then .error .poisoned l
  else
    match l.scan with
    | .error e l' => .error e { l' with phase := .failed }
    | .ok token l' => .ok token (if token.isEof then { l' with phase := .exhausted } else l')

/-- **The next token before the end of the input**, or the first error, and then nothing. The
token that marks the end is handed back at once. -/
def next? [Source σ] (l : Lexer σ n) : Option (Except LexError Token) × Lexer σ n :=
  if l.phase = .active then
    match l.next with
    | .error e l' => (some (.error e), l')
    | .ok token l' => if token.isEof then (none, l'.release token) else (some (.ok token), l')
  else (none, l)

/-- **The tokens up to the end of the input**, from at most `limit` calls, or the first error. -/
def tokens [Source σ] (l : Lexer σ n) : (limit : Nat) → Except LexError (List Token)
  | 0 => .ok []
  | limit + 1 =>
    match l.next? with
    | (none, _) => .ok []
    | (some (.error e), _) => .error e
    | (some (.ok token), l') => (l'.tokens limit).map (token :: ·)

end Lexer

end XPathScan
