import SchemaForge.Failure

/-!
# File trees

The part of a file system that a run can see: the files with their contents, the folders, and the
working folder from which relative paths start. Paths are lists of names; in texts the names are
separated by slashes, and empty names and single dots do not count.

* `FileTree.locate` follows a path name by name, as opening a file does;
* `FileTree.resolve` simplifies a path without looking at the files.
-/

namespace SchemaForge

open Text

/-- The names on the way to a file or folder. -/
abbrev Path := List String

structure FileTree where
  /-- The text that all absolute paths start with. -/
  root : String := ""
  /-- The working folder. -/
  home : Path := []
  files : List (Path × String) := []
  /-- Folders; those that hold a file need not be listed. -/
  folders : List Path := []

/-- What stands at a path. -/
inductive FileEntry where
  | file (content : String)
  | folder
deriving DecidableEq, Repr

namespace FileTree

/-! ## Paths -/

/-- The names of a path text. -/
def namesOf (text : List Char) : Path :=
  ((splitAt '/' text).map String.ofList).filter fun n => n != "" && n != "."

/-- Whether a path text starts from the root. -/
def isAbsolute (t : FileTree) (text : String) : Bool :=
  text == t.root && t.root != "" || startsWith (t.root ++ "/").toList text.toList

/-- The names of a path text, from the root on. -/
def pathOf (t : FileTree) (text : String) : Path :=
  if t.isAbsolute text then namesOf (text.toList.drop t.root.length)
  else t.home ++ namesOf text.toList

/-- The text of a path. -/
def textOf (t : FileTree) (path : Path) : String :=
  if path.isEmpty && t.root == "" then "/"
  else t.root ++ String.join (path.map ("/" ++ ·))

/-- The last name of a path text; two dots count as a name. -/
def nameOf (text : String) : String := ((namesOf text.toList).getLast?).getD ""

/-- A path without double dots: each takes back the name before it. -/
def simplify (path : Path) : Path :=
  path.foldl (fun done n => if n == ".." then done.dropLast else done ++ [n]) []

/-- The simplified path of a path text. -/
def resolve (t : FileTree) (text : String) : String := t.textOf (simplify (t.pathOf text))

/-! ## Entries -/

/-- Whether a path leads to another one, through at least one more name. -/
def isAbove : Path → Path → Bool
  | [], _ :: _ => true
  | a :: as, b :: bs => a == b && isAbove as bs
  | _, _ => false

/-- What stands at a path without double dots. -/
def entry? (t : FileTree) (path : Path) : Option FileEntry :=
  match t.files.lookup path with
  | some content => some (.file content)
  | none =>
    if path.isEmpty || isAbove path t.home || path == t.home || t.folders.contains path ||
        t.folders.any (isAbove path) || t.files.any (fun f => isAbove path f.1) then some .folder
    else none

/-- Follows a path from a folder; nothing can be followed through a file. -/
def follow (t : FileTree) (here : Path) : Path → Option Path
  | [] => some here
  | name :: rest =>
    if name == ".." then t.follow here.dropLast rest
    else
      match t.entry? (here ++ [name]) with
      | some .folder => t.follow (here ++ [name]) rest
      | some (.file _) => if rest.isEmpty then some (here ++ [name]) else none
      | none => none

/-- What a path text leads to. -/
def locate (t : FileTree) (text : String) : Option FileEntry :=
  (t.follow [] (t.pathOf text)).bind t.entry?

def exists? (t : FileTree) (text : String) : Bool := (t.locate text).isSome

/-- The content of a file, with line feeds for all line ends. -/
def read? (t : FileTree) (text : String) : Option String :=
  match t.locate text with
  | some (.file content) => some (String.ofList (lineFeeds content.toList))
  | _ => none
where
  lineFeeds : List Char → List Char
    | [] => []
    | '\r' :: '\n' :: cs => '\n' :: lineFeeds cs
    | c :: cs => (if c == '\r' then '\n' else c) :: lineFeeds cs

/-! ## Changes -/

/-- Sets the content of a file. -/
def putFile (t : FileTree) (path : Path) (content : String) : FileTree :=
  { t with files := (t.files.filter fun f => f.1 != path) ++ [(path, content)] }

/-- Makes the folders of a path from a folder on; a file in the way is a failure. -/
def makeFolders (t : FileTree) (here : Path) : Path → Except Failure (FileTree × Path)
  | [] => .ok (t, here)
  | name :: rest =>
    if name == ".." then t.makeFolders here.dropLast rest
    else
      let path := here ++ [name]
      match t.entry? path with
      | some .folder => t.makeFolders path rest
      | some (.file _) => .error .fileSystem
      | none => { t with folders := t.folders ++ [path] }.makeFolders path rest

end FileTree

end SchemaForge
