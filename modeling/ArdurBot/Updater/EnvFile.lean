import ArdurBot.Lib.Utf16

/-!
# The environment file of a deployment

`upsertEnvAssignments` of `packages/core/src/compose-update.ts` and `readTagState` of
`infra/updater/src/updater-logic.ts`: the tags that a deployment is pinned to are assignments in its
`.env` file, which is read as Compose reads it, and of which only the lines that begin with a key
are rewritten.
-/

namespace ArdurBot.Updater

open Utf16

def consUnitOfLine (u : CodeUnit) : List Text → List Text
  | [] => [[u]]
  | line :: lines => (u :: line) :: lines

/-- `split(/\r?\n/)` -/
def splitLines : Text → List Text
  | [] => [[]]
  | u :: rest =>
    if u = newline then [] :: splitLines rest
    else if u = carriageReturn && rest.head? = some newline then splitLines rest
    else consUnitOfLine u (splitLines rest)

/-- The units that `.` does not match. -/
def isLineEnd (u : CodeUnit) : Bool := u = newline || u = carriageReturn || u = 0x2028 || u = 0x2029

def equals : CodeUnit := unit '='

/-- `/^[A-Za-z0-9_][A-Za-z0-9._-]{0,127}$/` -/
def isValidImageTag : Text → Bool
  | [] => false
  | u :: rest =>
    (isUpper u || isLower u || isDigit u || u = unit '_') && rest.length ≤ 127 &&
      rest.all fun v => isUpper v || isLower v || isDigit v || v = unit '_' || v = unit '.' || v = unit '-'

def unquote (quote : CodeUnit) (value : Text) : Text :=
  match value with
  | [] => []
  | u :: rest => if u = quote && rest.getLast? = some quote && !rest.dropLast.any isLineEnd then
    rest.dropLast else value

def lineValue (key line : Text) : Option Text :=
  let line := trim line
  if line.head? = some (unit '#') then none
  else
    match line.takeWhile (· ≠ equals), line.dropWhile (· ≠ equals) with
    | u :: name, _ :: value =>
      if trim (u :: name) = key then some (unquote (unit '\'') (unquote (unit '"') (trim value))) else none
    | _, _ => none

def lastValue (key : Text) (lines : List Text) : Option Text :=
  lines.foldl (fun found line => (lineValue key line).or found) none

def readEnvAssignment (contents key : Text) : Option Text := lastValue key (splitLines contents)

def imageTagEnv : Text := lit "ARDURBOT_IMAGE_TAG"

def previousImageTagEnv : Text := lit "ARDURBOT_IMAGE_TAG_PREVIOUS"

def defaultImageTag : Text := lit "local"

structure TagState where
  currentTag : Text
  previousTag : Option Text

def readTagState (contents : Text) : TagState where
  currentTag := ((readEnvAssignment contents imageTagEnv).filter fun tag =>
    isValidImageTag tag).getD defaultImageTag
  previousTag := (readEnvAssignment contents previousImageTagEnv).filter fun tag => isValidImageTag tag

def isKeyUnit (u : CodeUnit) : Bool := isUpper u || isDigit u || u = unit '_'

/-- `/^[A-Z][A-Z0-9_]*$/` -/
def isEnvKey : Text → Bool
  | [] => false
  | u :: rest => isUpper u && rest.all isKeyUnit

/-- `/^[A-Za-z0-9._:/@+-]{0,256}$/` -/
def isEnvValue (value : Text) : Bool :=
  value.length ≤ 256 && value.all fun u => isUpper u || isLower u || isDigit u || u ∈ lit "._:/@+-"

/-- `/^([A-Z][A-Z0-9_]*)=/` -/
def managedKey (line : Text) : Option Text :=
  match line.dropWhile isKeyUnit with
  | [] => none
  | u :: _ => if u = equals && isEnvKey (line.takeWhile isKeyUnit) then
    some (line.takeWhile isKeyUnit) else none

def assignment (entry : Text × Text) : Text := entry.1 ++ equals :: entry.2

def rewriteLine (assignments : List (Text × Text)) (line : Text) : Text :=
  match (managedKey line).bind fun key => assignments.find? fun entry => entry.1 = key with
  | none => line
  | some entry => assignment entry

def pending (assignments : List (Text × Text)) (lines : List Text) : List (Text × Text) :=
  assignments.filter fun entry => !lines.any fun line => managedKey line = some entry.1

def withoutLastBlanks (lines : List Text) : List Text := (lines.reverse.dropWhile (· = [])).reverse

def updateLines (assignments : List (Text × Text)) (lines : List Text) : List Text :=
  let next := lines.map (rewriteLine assignments)
  if pending assignments lines = [] then next
  else
    let kept := withoutLastBlanks next
    (if kept = [] then [] else kept ++ [[]]) ++ (pending assignments lines).map assignment

def lineBreak (contents : Text) : Text := if lit "\r\n" <:+: contents then lit "\r\n" else lit "\n"

def upsertEnvAssignments (contents : Text) (assignments : List (Text × Text)) : Option Text :=
  if assignments.all fun entry => isEnvKey entry.1 && isEnvValue entry.2 then
    let rendered := (lineBreak contents).intercalate (updateLines assignments (splitLines contents))
    some (if lineBreak contents <:+ rendered then rendered else rendered ++ lineBreak contents)
  else none

end ArdurBot.Updater
