/-
# The program

Reads the command line, runs the command on a picture of the two files it
names, and carries out what the run decided: the grammar is stored if the
picture of its file changed, and the report is printed. If storing fails, the
command is run again on a picture in which storing fails, so that the report
is the right one.
-/
import GrammarSync.Command.Arguments

namespace GrammarSync

/-- The fault that reading or writing a file met. -/
def fileFault (e : IO.Error) : FileFault :=
  match e with
  | .noFileOrDirectory .. => .notFound
  | .inappropriateType _ 21 _ => .isDirectory
  | .inappropriateType .. => .notDirectory
  | e => .other (toString e)

/-- Add what is at a path to the picture. -/
def addPath (files : Files) (path : String) : IO Files := do
  try
    let content ← IO.FS.readBinFile path
    return files.install path (.file content none none)
  catch e =>
    match fileFault e with
    | .isDirectory => return files.install path .directory
    | .notFound => return files
    | .notDirectory => return files
    | fault => return files.install path (.file .empty (some fault) none)

/-- Carry out a run: store the grammar if it changed, print the report. -/
def carryOut (i : Invocation) (files : Files) : IO Run := do
  let path := i.config.grammar
  let r := i.run files .unbounded
  match r.files.read path with
  | .error _ => return r
  | .ok text =>
    if (files.read path).toOption = some text then return r
    else
      try
        IO.FS.writeFile path text
        return r
      catch e =>
        match files.locate path, files.entry path with
        | .ok place, .ok (.file content readFault _) =>
          let fault := fileFault e
          return i.run (files.put place (.file content readFault (some fault))) .unbounded
        | _, _ => return r

end GrammarSync

open GrammarSync in
/-- Run the program; gives its exit code. -/
def main (args : List String) : IO UInt32 := do
  match parseArguments args (← IO.getEnv "HEW_SYNTAX_DATA") with
  | .error e =>
    if e.exitCode = 0 then IO.print e.message else IO.eprint e.message
    return UInt32.ofNat e.exitCode
  | .ok i =>
    let files ← addPath .empty i.config.syntaxData
    let files ← addPath files i.config.grammar
    let r ← carryOut i files
    IO.print r.sink.written
    match r.failure with
    | some f => if !f.message.isEmpty then IO.eprintln f.message
    | none => pure ()
    return UInt32.ofNat r.exitCode
