import HtmlTemplate.Files.Path

/-!
# Directories

A directory holds files under locations: lists of names, the innermost name first. Every part of a
location is a directory of its own. A path is resolved piece by piece from the directory itself, and
each directory on its way has to exist, also where two dots lead back out of it. What lies outside
the directory is not known: it is neither read nor written.
-/

namespace HtmlTemplate

/-- What a file holds. -/
inductive File where
  /-- A text. -/
  | text (content : String)
  /-- Bytes that are no text. -/
  | binary
deriving DecidableEq

def File.text? : File → Option String
  | text s => some s
  | binary => none

/-- Where a file is in a directory: the names that lead there, the innermost first. -/
abbrev Location := List String

/-- The files of a directory, by their locations. -/
abbrev Directory := List (Location × File)

namespace Directory

/-- The file at a location. -/
def at? (d : Directory) (l : Location) : Option File := d.lookup l

/-- Is there a directory at a location? -/
def isDirectory (d : Directory) (l : Location) : Bool :=
  l.isEmpty || d.any fun (m, _) ↦ l.isSuffixOf m && m != l

/-- Follows the pieces of a path from a location. -/
def follow (d : Directory) (l : Location) : List String → Option Location
  | [] => some l
  | p :: ps =>
    if !d.isDirectory l then none
    else if Path.isIdle p then follow d l ps
    else if p = ".." then
      match l with
      | [] => none
      | _ :: up => follow d up ps
    else follow d (p :: l) ps

def resolve? (d : Directory) (p : Path) : Option Location :=
  if p.absolute || p.pieces = [""] then none else follow d [] p.pieces.reverse

/-- The file under a path. -/
def file? (d : Directory) (path : String) : Option File :=
  (d.resolve? (Path.ofText path)).bind d.at?

/-- Puts a file at a location; one that is there already is replaced. -/
def put (l : Location) (f : File) : Directory → Directory
  | [] => [(l, f)]
  | (m, g) :: d => if m = l then (m, f) :: d else (m, g) :: put l f d

/-- Writes a text to the file under a path, if there is or can be one. -/
def write? (d : Directory) (path content : String) : Option Directory :=
  match d.resolve? (Path.ofText path) with
  | none => none
  | some l => if d.isDirectory l then none else some (put l (.text content) d)

/-- A directory of texts under paths. -/
def ofTexts (files : List (String × String)) : Directory :=
  files.map fun (path, s) ↦
    ((Path.ofText path).pieces.filter (fun p ↦ !Path.isIdle p), .text s)

/-- The path of a location from the directory. -/
def pathOf (l : Location) : String := (Path.mk false l).text

end Directory

end HtmlTemplate
