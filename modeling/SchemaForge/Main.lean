import SchemaForge.Command.Run

/-!
# The command

Reads from the disk what the arguments may name, runs the command on it, prints, and writes the
module. All decisions are those of `Command.run`.
-/

namespace SchemaForge.Command

/-- The texts of arguments that may name files: themselves, and what follows an equals sign. -/
def candidates (args : List String) : List String :=
  args.flatMap fun arg => arg :: (splitEquals arg.toList).2.toList

/-- Adds what stands at a path on the disk: a file with its content, or a folder. -/
def addFromDisk (files : FileTree) (text : String) : IO FileTree := do
  let path := files.pathOf (files.resolve text)
  let place := files.textOf path
  try
    return files.putFile path (← IO.FS.readFile place)
  catch _ =>
    try
      discard (IO.FS.realPath place)
      return { files with folders := files.folders ++ [path] }
    catch _ => return files

/-- Puts a file on the disk as a whole. -/
def putOnDisk (files : FileTree) (path : Path) (content : String) : IO Unit := do
  let place := files.textOf path
  IO.FS.createDirAll (files.textOf path.dropLast)
  let draft := place ++ ".tmp"
  IO.FS.writeFile draft content
  IO.FS.rename draft place

/-- The files that arguments may name. -/
def filesFor (args : List String) : IO FileTree := do
  let here ← IO.currentDir
  let files : FileTree := { home := FileTree.namesOf here.toString.toList }
  (candidates args).foldlM addFromDisk files

end SchemaForge.Command

open SchemaForge Command in
def main (args : List String) : IO UInt32 := do
  let files ← filesFor args
  let input ← if args.contains Loading.standardInput then (← IO.getStdin).readToEnd else pure ""
  match run files input args with
  | .error failure =>
    IO.eprintln ("Error: " ++ failure.message)
    return 1
  | .ok outcome =>
    for (path, content) in outcome.files.files do
      if files.files.lookup path != some content then putOnDisk files path content
    IO.print outcome.stdout
    IO.eprint outcome.stderr
    return outcome.exitCode.toUInt32
