import TypeSketch.Bundled.Libraries

/-!
# The program

Reads the arguments, the files they name and the standard input, runs the request and prints what
it comes to.
-/

namespace TypeSketch.Program

/-- What stands at a path of the file system. -/
def entryAt (path : Path) : IO (Option Entry) := do
  try
    let contents ← IO.FS.readBinFile path.text
    return some (.file contents.toList)
  catch e =>
    match e with
    | .noFileOrDirectory .. => return none
    | .inappropriateType .. => return some .directory
    | other => throw other

/-- The rest of a stream. -/
partial def readAll (stream : IO.FS.Stream) (before : ByteArray) : IO ByteArray := do
  let chunk ← stream.read 65536
  if chunk.isEmpty then return before
  readAll stream (before ++ chunk)

/-- All that an invocation may read. -/
def workspaceFor (i : Invocation) : IO Workspace := do
  let mut entries := []
  for path in i.paths do
    if let some e ← entryAt path then
      entries := (path, e) :: entries
  let input ← if i.readsInput then readAll (← IO.getStdin) .empty else pure .empty
  return { entries, input := input.toList }

def deliver (o : Outcome) : IO UInt32 := do
  if let some (path, text) := o.written then
    IO.FS.writeFile path.text (String.ofList text)
  IO.print (String.ofList o.output)
  IO.eprint (String.ofList o.errors)
  return UInt32.ofNat o.exitCode

end TypeSketch.Program

open TypeSketch in
def main (arguments : List String) : IO UInt32 := do
  let invocation := Invocation.ofArguments arguments
  let workspace ← Program.workspaceFor invocation
  let libraries := Bundled.libraries
  match invocation.run libraries workspace with
  | .ok outcome => Program.deliver outcome
  | .error failure => Program.deliver (.ofFailure libraries failure)
