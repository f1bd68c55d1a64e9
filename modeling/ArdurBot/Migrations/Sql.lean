import ArdurBot.Migrations.Runner

/-!
# Reading the SQL of a file

The patterns of `packages/db/src/migrate-sql.ts`. They ignore case, of ASCII letters only.
-/

namespace ArdurBot.Migrations

open Utf16

/-- Every span is replaced by a blank; a span is not looked for inside another. -/
def replaceSpans (span : Text → Option ℕ) : ℕ → Text → Text
  | _, [] => []
  | skip + 1, _ :: rest => replaceSpans span skip rest
  | 0, code :: rest =>
    match span (code :: rest) with
    | some length => unit ' ' :: replaceSpans span (length - 1) rest
    | none => code :: replaceSpans span 0 rest

def blockEnd : Text → Option ℕ
  | [] => none
  | code :: rest =>
    if (lit "*/").isPrefixOf (code :: rest) then some 2 else (blockEnd rest).map (· + 1)

def blockComment (text : Text) : Option ℕ :=
  if (lit "/*").isPrefixOf text then (blockEnd (text.drop 2)).map (· + 2) else none

def lineComment (text : Text) : Option ℕ :=
  if (lit "--").isPrefixOf text then some (text.takeWhile (· ≠ 10)).length else none

def withoutComments (sql : Text) : Text :=
  replaceSpans lineComment 0 (replaceSpans blockComment 0 sql)

section

variable (code : CodeUnit)

def toLower : CodeUnit := if unit 'A' ≤ code && code ≤ unit 'Z' then code + 32 else code

def isLetter : Bool := unit 'a' ≤ toLower code && toLower code ≤ unit 'z'

def isWord : Bool := isLetter code || isDigit code || code = unit '_'

end

def keyword (word : String) (text : Text) : Option Text :=
  if (lit word).isPrefixOf (text.map toLower) then some (text.drop word.length) else none

def blanks : Text → Option Text
  | [] => none
  | code :: rest => if isWhite code then some (rest.dropWhile isWhite) else none

/-- What is left after words, each with blanks after it. -/
def keywords : List String → Text → Option Text
  | [], text => some text
  | word :: words, text => do
    let text ← keyword word text
    let text ← blanks text
    keywords words text

/-- With the words, or without them when that fails. -/
def optionally {α : Type} (words : List String) (next : Text → Option α) (text : Text) : Option α :=
  ((keywords words text).bind next).or (next text)

/-- What is left after the end of a quoted identifier. A doubled quote is part of it if another
follows. -/
def quotedEnd : Text → Option Text
  | [] => none
  | code :: rest =>
    if code ≠ unit '"' then quotedEnd rest
    else
      match rest with
      | [] => some []
      | next :: after => if next = unit '"' then (quotedEnd after).or (some rest) else some rest

def quoted : Text → Option Text
  | [] => none
  | code :: rest =>
    if code ≠ unit '"' then none
    else
      match rest with
      | [] => none
      | first :: after =>
        if first ≠ unit '"' then quotedEnd after
        else
          match after with
          | [] => none
          | second :: after => if second = unit '"' then quotedEnd after else none

def bare : Text → Option Text
  | [] => none
  | code :: rest =>
    if isLetter code || code = unit '_' then
      some (rest.dropWhile fun code => isWord code || code = unit '$') else none

/-- An identifier as it is written, and what is left after it. -/
def identifierToken (text : Text) : Option (Text × Text) :=
  ((quoted text).or (bare text)).map fun rest => (text.take (text.length - rest.length), rest)

def unquote : Text → Text
  | first :: second :: rest =>
    if first = unit '"' && second = unit '"' then first :: unquote rest else first :: unquote (second :: rest)
  | text => text

def identifier (token : Text) : Text :=
  if (lit "\"").isPrefixOf token then unquote (token.drop 1).dropLast else token.map toLower

/-- All matches, from the left, each beginning at a word boundary and none inside another. -/
def matchAll {α : Type} (pattern : Text → Option (α × Text)) : Bool → ℕ → Text → List α
  | _, _, [] => []
  | _, skip + 1, code :: rest => matchAll pattern (isWord code) skip rest
  | afterWord, 0, code :: rest =>
    if afterWord = isWord code then matchAll pattern (isWord code) 0 rest
    else
      match pattern (code :: rest) with
      | some (found, left) => found :: matchAll pattern (isWord code) (rest.length - left.length) rest
      | none => matchAll pattern (isWord code) 0 rest

def indexConcurrently (text : Text) : Option (Unit × Text) := do
  let text ← keywords ["index"] text
  let text ← keyword "concurrently" text
  if text.head?.any isWord then none else some ((), text)

def buildsIndexConcurrently (sql : Text) : Bool :=
  !(matchAll indexConcurrently false 0 (withoutComments sql)).isEmpty

def creates (text : Text) : Option (Text × Text) := do
  let text ← keywords ["create"] text
  let text ← optionally ["unique"] (keywords ["index", "concurrently"]) text
  optionally ["if", "not", "exists"] identifierToken text

def afterDot (text : Text) : Option (Text × Text) :=
  match text.dropWhile isWhite with
  | [] => none
  | code :: rest => if code = unit '.' then identifierToken (rest.dropWhile isWhite) else none

def drops (text : Text) : Option ((Text × Option Text) × Text) := do
  let text ← keywords ["drop", "index", "concurrently"] text
  let (token, text) ← optionally ["if", "exists"] identifierToken text
  match afterDot text with
  | some (second, text) => some ((token, some second), text)
  | none => some ((token, none), text)

def createdTarget (token : Text) : Option IndexName :=
  if token.map toLower = lit "on" then none else some { schema := none, name := identifier token }

def droppedTarget : Text × Option Text → IndexName
  | (schema, some name) => { schema := some (identifier schema), name := identifier name }
  | (name, none) => { schema := none, name := identifier name }

def indexTargets (sql : Text) : IndexTargets where
  created := (matchAll creates false 0 (withoutComments sql)).map createdTarget
  dropped := (matchAll drops false 0 (withoutComments sql)).map droppedTarget

/-- The reader of the runner, whatever `migrationChecksum` is and whatever the database finds of
commits. -/
def sqlReader (migrationChecksum : Text → Text) (ownCommits : Text → ℕ) : SqlReader where
  checksum := migrationChecksum
  buildsIndexConcurrently
  indexTargets
  ownCommits

end ArdurBot.Migrations
