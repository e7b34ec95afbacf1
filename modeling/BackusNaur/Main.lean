import BackusNaur.CommandLine.Run

/-!
# The program

Reads the surroundings of a run, writes its outcome and ends with its exit code.
-/

namespace BackusNaur.CommandLine

/-- All that can still be read from a stream, after some text. -/
partial def readAll (stream : IO.FS.Stream) (before : String) : IO String := do
  let line ← stream.getLine
  if line.isEmpty then return before else readAll stream (before ++ line)

def readEntry (path : Path) : IO (Option (Path × Entry)) := do
  let place := (← IO.currentDir) / path.text
  if ← place.isDir then return some (path, .directory)
  try
    let bytes ← IO.FS.readBinFile place
    return some (path, .file bytes.toList)
  catch _ => return none

def surroundings (runtime : Runtime) (i : Invocation) : IO Surroundings := do
  let disk : Disk := ⟨Path.ofText (← IO.currentDir).toString, []⟩
  let paths := i.paths.flatMap fun path => (disk.absolute path).steps
  let entries ← paths.filterMapM readEntry
  let maxDepth ← IO.getEnv "BNFMATCH_MAX_DEPTH"
  let logLevel ← IO.getEnv "BNFMATCH_LOG_LEVEL"
  let input ← if i.readsInput then readAll (← IO.getStdin) "" else pure ""
  return { runtime, disk := { disk with entries }, environment := { maxDepth, logLevel }, input }

def program (runtime : Runtime) (arguments : List String) : IO UInt32 := do
  let w ← match Invocation.ofArguments runtime.keepsDashes arguments with
    | .ok i => surroundings runtime i
    | .error _ => pure { runtime, disk := ⟨{}, []⟩ }
  let outcome := run arguments w
  IO.print outcome.output
  IO.eprint (outcome.errorText s!"{← IO.monoMsNow} ms")
  match outcome.ending with
  | .exit e => return e.code.toUInt32
  | .fault f =>
    IO.eprintln f.message
    return 1

end BackusNaur.CommandLine
