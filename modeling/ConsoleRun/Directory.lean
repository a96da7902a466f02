import ConsoleRun.Text.Utf8

-- Files as a program finds them by their paths, and what keeps it from reading one.

namespace ConsoleRun

inductive FileError where
  | notFound
  | notDirectory
  | isDirectory
  | nameTooLong
  -- The bytes are not UTF-8.
  | notText
  | failed (reason : Text)
  deriving DecidableEq, Repr

namespace FileError

def message : FileError → Text
  | notFound => "No such file or directory (os error 2)"
  | notDirectory => "Not a directory (os error 20)"
  | isDirectory => "Is a directory (os error 21)"
  | nameTooLong => "File name too long (os error 36)"
  | notText => "stream did not contain valid UTF-8"
  | failed reason => reason

end FileError

-- The files below a directory, by the names on the way to them.
structure Directory where
  files : List (List Text × List UInt8)

namespace Directory

-- Steps of a path. Empty ones and single dots lead nowhere.
def steps (path : Text) : List Text :=
  (Text.splitOn '/' path).filter fun step => !step.isEmpty && step ≠ ['.']

def ofNames (files : List (Text × List UInt8)) : Directory :=
  ⟨files.map fun file => (steps file.1, file.2)⟩

-- A path that ends with a slash or a dot means a directory.
def meansDirectory (path : Text) : Bool :=
  let last := (Text.splitOn '/' path).getLastD []
  last.isEmpty || last = ['.'] || last = ['.', '.']

def file? (directory : Directory) (place : List Text) : Option (List UInt8) :=
  (directory.files.find? fun file => file.1 = place).map (·.2)

def holds (directory : Directory) (place : List Text) : Bool :=
  directory.files.any fun file => place.isPrefixOf file.1

-- Walks from a place inside the directory. What lies outside of it is not known.
def walk (directory : Directory) (toFile : Bool) :
    (place steps : List Text) → Except FileError (List UInt8)
  | _, [] => .error .isDirectory
  | place, step :: rest =>
    if step = ['.', '.'] then
      if place.isEmpty && !rest.isEmpty then .error .notFound
      else walk directory toFile place.dropLast rest
    else if 255 < Text.size step then .error .nameTooLong
    else
      match directory.file? (place ++ [step]) with
      | some bytes => if rest.isEmpty && toFile then .ok bytes else .error .notDirectory
      | none =>
        if directory.holds (place ++ [step]) then walk directory toFile (place ++ [step]) rest
        else .error .notFound

def read (directory : Directory) (path : Text) : Except FileError (List UInt8) :=
  match path with
  | [] => .error .notFound
  | '/' :: _ => if (steps path).isEmpty then .error .isDirectory else .error .notFound
  | _ => directory.walk (!meansDirectory path) [] (steps path)

end Directory

end ConsoleRun
