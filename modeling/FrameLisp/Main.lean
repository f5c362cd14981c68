import FrameLisp.Console.Transcript
import FrameLisp.Datum.Strings

/-!
# The program

Fetches what the commands need and writes what they answer. A program can only load files whose
paths are strings of its texts, so those files are read before it is evaluated.
-/
open FrameLisp Console

namespace FrameLisp.Shell

/-- Calls may be nested as deeply as the machine allows. -/
def depth : Nat := 1000000000

/-- Files that were read. -/
abbrev Fetched := List (String × Except FileFault (List UInt8))

def Fetched.files (fetched : Fetched) : Files := fun path =>
  (fetched.lookup path).getD (.error .notFound)

/-- Some operations report the number of an error with the opposite sign. -/
def errorNumber (code : UInt32) : UInt32 := if code < 0x80000000 then code else 0 - code

def faultOf : IO.Error → FileFault
  | .inappropriateType _ code _ => if errorNumber code = 20 then .notDirectory else .isDirectory
  | .illegalOperation .. => .isDirectory
  | .invalidArgument _ code _ => if errorNumber code = 36 then .invalidName else .invalidPath
  | _ => .notFound

def readFile (path : String) : IO (Except FileFault (List UInt8)) := do
  try
    let bytes ← IO.FS.readBinFile path
    return .ok bytes.toList
  catch e => return .error (faultOf e)

/-- The paths that the forms of a text may load. -/
def mentioned (cs : List Char) : List String :=
  match Source.Program.ofChars cs with
  | .ok program => program.data.flatMap Datum.strings
  | .error _ => []

/-- The paths that the forms of a file may load, however it is read. -/
def mentionedInFile (bytes : List UInt8) : List String :=
  mentioned (Text.Decoded.leading (Text.decode bytes)) ++
    (Source.Chunk.ofBytes bytes).flatMap fun chunk => match chunk with
      | .forms data => data.flatMap Datum.strings
      | _ => []

/-- Reads the wanted files and those that they may load. -/
partial def fetch (fetched : Fetched) : List String → IO Fetched
  | [] => return fetched
  | path :: paths => do
    if (fetched.lookup path).isSome then fetch fetched paths
    else
      let content ← readFile path
      let more := match content with
        | .ok bytes => mentionedInFile bytes
        | .error _ => []
      fetch ((path, content) :: fetched) (more ++ paths)

def wantsColour : IO Bool := do
  let forced := ((← IO.getEnv "FORCE_COLOR").getD "") != ""
  let plain := (← IO.getEnv "NO_COLOR").isSome || ((← IO.getEnv "TERM").getD "dumb") == "dumb"
  return forced || (!plain && (← (← IO.getStderr).isTty))

def write (colour : Bool) (outputs : List Output) : IO Unit := do
  for output in outputs do
    (← IO.getStdout).putStr (Output.stdout [output])
    (← IO.getStderr).putStr (Output.stderr colour [output])
  (← IO.getStdout).flush

/-- The next line of an input, or no bytes at its end. -/
partial def nextLine (input : IO.FS.Stream) (line : List UInt8) : IO (List UInt8) := do
  match (← input.read 1).toList with
  | [] => return line.reverse
  | b :: _ => if b = 10 then return (b :: line).reverse else nextLine input (b :: line)

/-- Holds a dialogue; `prepare` is done before a line is answered. -/
partial def converse {State : Type} (colour : Bool) (d : Dialogue State)
    (prepare : State → List UInt8 → IO State) (s : State) : IO UInt32 := do
  write colour [.prompt (d.prompt s)]
  let line ← nextLine (← IO.getStdin) []
  if line.isEmpty then
    write colour d.farewell
    return 0
  let (outputs, next) := d.turn (← prepare s line) line
  write colour outputs
  match next with
  | .ok s => converse colour d prepare s
  | .error code => return code.toUInt32

/-- Gives the session the files that the next forms may load. -/
def prepareFiles (r : Repl) (line : List UInt8) : IO Repl := do
  let text := r.pending ++ Text.Decoded.leading (Text.decode line)
  let fetched ← fetch [] (mentioned text)
  let older := r.session.files
  let files : Files := fun path => (fetched.lookup path).getD (older path)
  return { r with session := { r.session with files } }

def execute (colour : Bool) : Command → IO UInt32
  | .repl threshold =>
    converse colour (Repl.dialogue depth) prepareFiles (.start threshold fun _ => .error .notFound)
  | .lex => converse colour (inspection tokenLines) (fun s _ => return s) ()
  | .read => converse colour (inspection formLines) (fun s _ => return s) ()
  | .run path print threshold => do
    write colour [announcement path]
    let began ← IO.monoMsNow
    let fetched ← fetch [] [path]
    let results ← IO.lazyPure fun _ => resultsOf depth fetched.files path threshold
    let t := conclusion print (seconds ((← IO.monoMsNow) - began)) results
    write colour t.outputs
    return t.code.toUInt32

def usage : String :=
  "usage: framelisp repl [--gc-threshold N]\n       framelisp run [-p] [--gc-threshold N] PATH\n" ++
    "       framelisp lex\n       framelisp read\n"

end FrameLisp.Shell

open FrameLisp.Shell

def main (arguments : List String) : IO UInt32 := do
  match Command.ofArguments? arguments with
  | some command => execute (← wantsColour) command
  | none =>
    (← IO.getStderr).putStr usage
    return 2
