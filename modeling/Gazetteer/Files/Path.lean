/-!
# Paths

What can be said of a path from its text alone: the name at its end, the path of the directory that
holds it, and the path beside it where contents are written before they are moved to their place.
Slashes at the end of a path, and parts that name the place they are in, say nothing about the name.

| here | operation |
| --- | --- |
| `temporaryPath?` | `temp_path` |
-/

namespace Gazetteer

/-- The reversed characters of a path without the slashes at its end and without the parts there
that name the place they are in. -/
def dropTrailing : List Char → List Char
  | '/' :: rest => dropTrailing rest
  | '.' :: '/' :: rest => dropTrailing rest
  | rest => rest

/-- The reversed characters of a name at the end of a path, and of all that stands before it. -/
def splitPath (path : String) : List Char × List Char :=
  let cs := dropTrailing path.toList.reverse
  (cs.takeWhile (· ≠ '/'), cs.dropWhile (· ≠ '/'))

/-- The last part of a path, unless the path names a directory relative to others. -/
def fileName? (path : String) : Option String :=
  let name := String.ofList (splitPath path).1.reverse
  if ["", ".", ".."].contains name then none else some name

/-- The path of the directory that holds what a path names: empty for a path of a single part. -/
def parentPath (path : String) : String :=
  match (splitPath path).2 with
  | [] => ""
  | before =>
    match dropTrailing before with
    | [] => "/"
    | cs => String.ofList cs.reverse

/-- The path of a name in the directory with a given path. -/
def joinPath (directory name : String) : String :=
  if directory.isEmpty ∨ directory = "/" then directory ++ name else directory ++ "/" ++ name

/-- The path beside a file where its contents are written first. -/
def temporaryPath? (path : String) : Option String :=
  (fileName? path).map fun name => joinPath (parentPath path) (name ++ ".tmp")

/-- A path and those of the directories around it, from the inside out; `fuel` bounds their
number. -/
def pathsAround : (fuel : Nat) → String → List String
  | 0, _ => []
  | fuel + 1, path =>
    if path.isEmpty ∨ path = "/" then [] else path :: pathsAround fuel (parentPath path)

end Gazetteer
