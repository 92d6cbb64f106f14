import AudioAtoms.ReadFile
import AudioAtoms.Report

/-!
# The command line

The tool takes options and paths in any order and reports on each file. It fails if any file could
not be read. A read ahead that is too large to be addressed halts it at the first file that opens.
-/
namespace AudioAtoms

structure Settings where
  verbose : Bool := false
  implicitReplication : Bool := true
  findArtwork : Bool := true
  /-- The size of a read ahead, if given. -/
  bufferSize : Option Nat := none
  paths : List String := []
deriving DecidableEq, Repr

namespace Settings

def options (s : Settings) : Options :=
  { implicitReplication := s.implicitReplication, findArtwork := s.findArtwork }

/-- The size of a read ahead. Zero counts as one. -/
def readAhead (s : Settings) : Nat := max (s.bufferSize.getD 4096) 1

end Settings

namespace CommandLine

inductive Outcome where
  | record (track : Track)
  | failure
  /-- There is no room for the read ahead. -/
  | halt
deriving DecidableEq, Repr

namespace Outcome

def ofSource? (s : Settings) : Option Source → Outcome
  | none => failure
  | some source =>
    match Buffered.ofSource? source s.readAhead with
    | none => halt
    | some stream =>
      match Track.ofBuffered s.options stream with
      | .ok track => record track
      | .error _ => failure

def code : Outcome → Nat
  | record _ => 0
  | failure => 1
  | halt => 101

/-- The report on the path. It breaks off at a halt. -/
def lines (path : String) : Outcome → List String
  | record track => Report.fileLines path (some track)
  | failure => Report.fileLines path none
  | halt => Report.pathLines path

end Outcome

inductive Command where
  | misuse
  | help
  | version
  | report (s : Settings)
deriving DecidableEq, Repr

/-- A number in decimal within 64 bits. One plus sign may stand before it. -/
def number? (text : String) : Option Nat :=
  let digits := match text.toList with
    | '+' :: cs => cs
    | cs => cs
  let n := Numeral.ofDigits digits
  if digits ≠ [] ∧ digits.all Char.isDigit ∧ n < 2 ^ 64 then some n else none

def switch? (s : Settings) : String → Option Settings
  | "verbose" => if s.verbose then none else some { s with verbose := true }
  | "no-implicit-sbr" =>
    if s.implicitReplication then some { s with implicitReplication := false } else none
  | "no-album-art" => if s.findArtwork then some { s with findArtwork := false } else none
  | _ => none

def bufferSize? (s : Settings) (text : String) : Option Settings :=
  if s.bufferSize.isSome then none
  else (number? text).map fun n => { s with bufferSize := some n }

def finish (s : Settings) : Command :=
  if s.paths = [] then .misuse else .report s

def addPaths (s : Settings) (paths : List String) : Settings :=
  { s with paths := s.paths ++ paths }

inductive Argument where
  | path
  | endOfOptions
  | short (letters : List Char)
  | long (name : String)
  | valued (name value : String)

/-- Tells options from paths. A lone dash is a path. -/
def classify (argument : String) : Argument :=
  match argument.toList with
  | '-' :: '-' :: [] => .endOfOptions
  | '-' :: '-' :: cs =>
    if '=' ∈ cs then
      .valued (String.ofList (cs.takeWhile (· ≠ '=')))
        (String.ofList ((cs.dropWhile (· ≠ '=')).drop 1))
    else .long (String.ofList cs)
  | '-' :: c :: cs => .short (c :: cs)
  | _ => .path

def shorts (s : Settings) : List Char → Except Command Settings
  | [] => .ok s
  | 'v' :: cs =>
    match switch? s "verbose" with
    | some s => shorts s cs
    | none => .error .misuse
  | 'h' :: _ => .error .help
  | 'V' :: _ => .error .version
  | _ => .error .misuse

def parseFrom (s : Settings) : List String → Command
  | [] => finish s
  | argument :: rest =>
    match classify argument with
    | .path => parseFrom (addPaths s [argument]) rest
    | .endOfOptions => finish (addPaths s rest)
    | .short letters =>
      match shorts s letters with
      | .ok s => parseFrom s rest
      | .error command => command
    | .valued name value =>
      if name = "buffer-len" then
        match bufferSize? s value with
        | some s => parseFrom s rest
        | none => .misuse
      else .misuse
    | .long "help" => .help
    | .long "version" => .version
    | .long "buffer-len" =>
      match rest with
      | [] => .misuse
      | value :: rest =>
        match bufferSize? s value with
        | some s => parseFrom s rest
        | none => .misuse
    | .long name =>
      match switch? s name with
      | some s => parseFrom s rest
      | none => .misuse

def parse (arguments : List String) : Command := parseFrom {} arguments

/-- Exit code and reports for paths that open the given sources. No path is looked at after a
halt. -/
def report (s : Settings) (source? : String → Option Source) : List String → Nat × List String
  | [] => (0, [])
  | path :: rest =>
    let outcome := Outcome.ofSource? s (source? path)
    if outcome = .halt then (outcome.code, outcome.lines path)
    else
      let (code, lines) := report s source? rest
      (max outcome.code code, outcome.lines path ++ lines)

def run (arguments : List String) (source? : String → Option Source) : Nat × List String :=
  match parse arguments with
  | .misuse => (2, [])
  | .help | .version => (0, [])
  | .report s => report s source? s.paths

end CommandLine

end AudioAtoms
