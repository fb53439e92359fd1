import SchemaForge.Files.FileTree
import SchemaForge.ModuleText

/-!
# Writing modules

A module is written as a whole or not at all: its folders are made, its text is checked, and only
then does it take the place of what was there. Folders that were made stay, whatever comes after.
-/

namespace SchemaForge.Files

open Text

/-- The least that the text of a module has to hold. -/
def checkModule (content : String) : Except Failure Unit :=
  if !contains ModuleText.libraryImport.toList content.toList then .error .missingImport
  else if !contains "export const ".toList content.toList then .error .noDefinitions
  else .ok ()

/-- Puts a file in place, unless a folder stands there. -/
def place (t : FileTree) (path : Path) (content : String) : Except Failure FileTree :=
  match t.entry? path with
  | some .folder => .error .fileSystem
  | _ => .ok (t.putFile path content)

/-- Writes a file, after a check of its text if asked; gives the files as they are then. -/
def write (t : FileTree) (target content : String) (checked : Bool) :
    Except Failure Unit × FileTree :=
  let path := t.pathOf target
  match t.makeFolders [] path.dropLast with
  | .error f => (.error f, t)
  | .ok (made, folder) =>
    let placed := do
      if checked then checkModule content
      place made (folder ++ path.getLast?.toList) content
    match placed with
    | .ok t => (.ok (), t)
    | .error f => (.error f, made)

end SchemaForge.Files
