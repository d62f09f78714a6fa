/-!
# Paths

Which part of a path names a file, and how one path is made from another. Empty parts and `.` parts
at the end of a path name nothing, so `prog.s` is the file name of `dir/prog.s/.` too; a path that
ends in `..`, or has no part at all, has no file name. The extension is what follows the last dot of
the file name, unless that dot is its first character.
-/

namespace WordMachine.Path

/-- A path cut around its file name: `directory` reaches up to the last slash before it, `trailer`
is the run of slashes and `.` parts after it. -/
structure Split where
  directory : List Char
  name : List Char
  trailer : List Char

/-- Drops the slashes and `.` parts at the end of a path, which is given in reverse. -/
def dropTrailer : List Char → List Char
  | '/' :: rest => dropTrailer rest
  | '.' :: '/' :: rest => dropTrailer rest
  | reversed => reversed

/-- Cuts a path around its file name, if it has one. -/
def split? (path : List Char) : Option Split :=
  let reversed := path.reverse
  let body := dropTrailer reversed
  let name := (body.takeWhile (· ≠ '/')).reverse
  if name = [] ∨ name = ['.'] ∨ name = ['.', '.'] then none
  else
    some ⟨(body.dropWhile (· ≠ '/')).reverse, name,
      (reversed.take (reversed.length - body.length)).reverse⟩

/-- A file name cut at its last dot, if that is not its first character: stem and extension. -/
def cutName? (name : List Char) : Option (List Char × List Char) :=
  let reversed := name.reverse
  let extension := reversed.takeWhile (· ≠ '.')
  match reversed.drop extension.length with
  | '.' :: stem => if stem = [] then none else some (stem.reverse, extension.reverse)
  | _ => none

/-- The extension of a path's file name. -/
def extension? (path : String) : Option String := do
  let cut ← split? path.toList
  let (_, extension) ← cutName? cut.name
  return String.ofList extension

/-- The path with the extension of its file name replaced, or added when it has none. A path without
a file name stays as it is. Where the old extension stands behind two dots alone and ends the path,
taking it away leaves no file name, and the path ends there. -/
def withExtension (path extension : String) : String :=
  match split? path.toList with
  | none => path
  | some ⟨directory, name, trailer⟩ =>
    match cutName? name with
    | none => String.ofList (directory ++ name) ++ "." ++ extension
    | some (stem, _) =>
      if stem = ['.'] ∧ trailer = [] then String.ofList (directory ++ ['.', '.'])
      else String.ofList (directory ++ stem) ++ "." ++ extension

/-- The path of `file` in a directory. An absolute path stays as it is. -/
def join (directory file : String) : String :=
  if file.toList.head? = some '/' ∨ directory.isEmpty then file
  else if directory.toList.getLast? = some '/' then directory ++ file
  else directory ++ "/" ++ file

/-- The parts of a text between the occurrences of a character. -/
def partsAt (separator : Char) : List Char → List (List Char)
  | [] => [[]]
  | c :: rest =>
    if c = separator then [] :: partsAt separator rest
    else
      match partsAt separator rest with
      | part :: parts => (c :: part) :: parts
      | [] => [[c]]

/-- The directories of a search path, which are divided by colons; empty ones do not count. -/
def searchList (text : String) : List String :=
  ((partsAt ':' text.toList).filter (· ≠ [])).map String.ofList

end WordMachine.Path
