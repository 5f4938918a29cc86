import NeuralEngine.Params.Basic
import NeuralEngine.Text

/-!
# Parameter files

A parameter file has one `(KEY,VALUE)` pair a line. Blanks around a line, a key and a value do not
count and blank lines are skipped. A later line for a key replaces an earlier one, keys that are
not known are reported and skipped, and parameters without a line keep their defaults. The first
line that cannot be read ends the reading; the capability word is checked after the last line.
-/

namespace NeuralEngine

namespace ParamFile

open Text

/-- The lines of a text: what stands between its line feeds. -/
def lines (text : List Char) : List (List Char) :=
  text.foldr (fun c ls => if c = '\n' then [] :: ls else ls.modifyHead (c :: ·)) [[]]

/-- The text between a leading `(` and a trailing `)`. -/
def unwrap? : List Char → Option (List Char)
  | '(' :: cs => if cs.getLast? = some ')' then some cs.dropLast else none
  | _ => none

/-- The texts before and after the first comma. -/
def splitComma? (cs : List Char) : Option (List Char × List Char) :=
  match cs.dropWhile (· != ',') with
  | [] => none
  | _ :: rest => some (cs.takeWhile (· != ','), rest)

/-- The key and the value of a trimmed line, still with the blanks around them. -/
def pair? (line : List Char) : Option (List Char × List Char) :=
  (unwrap? line).bind splitComma?

/-- The 64-bit number that a value writes. -/
def value? (cs : List Char) : Option Nat :=
  (readNat? (trim cs)).filter (· < 2 ^ 64)

/-- The parameters after line `n`, with the reports about it. -/
def readLine (p : EngineParams) (n : Nat) (line : List Char) :
    Except ParamError (EngineParams × List ParamWarning) :=
  let line := trim line
  if line = [] then .ok (p, [])
  else match pair? line with
    | none => .error (.malformedLine n)
    | some (key, value) => match value? value with
      | none => .error (.badValue n)
      | some v => match ParamKey.ofName? (trim key) with
        | none => .ok (p, [.unknownKey (trim key) n])
        | some k => if v < 2 ^ k.bits then .ok (p.set k v, []) else .error (.badValue n)

/-- The parameters after lines `n`, `n + 1`, and so on, checked at the end. -/
def readLines (p : EngineParams) : Nat → List (List Char) → Except ParamError EngineParams × List ParamWarning
  | _, [] => (p.validate.1.map fun _ => p, p.validate.2)
  | n, line :: rest =>
    match readLine p n line with
    | .error e => (.error e, [])
    | .ok (q, ws) =>
      let after := readLines q (n + 1) rest
      (after.1, ws ++ after.2)

end ParamFile

/-- Reads a parameter file, starting from the defaults. The reports come in the order of the lines
and are kept when the file is refused. -/
def EngineParams.parse (text : String) : Except ParamError EngineParams × List ParamWarning :=
  ParamFile.readLines {} 1 (ParamFile.lines text.toList)

end NeuralEngine
