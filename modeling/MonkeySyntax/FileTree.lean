/-!
# Files and their names

What a name leads to in a file system. To the rest of the library a file system is a `FileView`: an
answer for every name, which is either what the file of that name holds or the reason why there is
no such file to be opened.

A file system that can be written down is a `FileTree`, and `FileTree.view` is its view from its
topmost directory. A name is a path, whose parts stand between slashes. Going through the parts from
left to right, each leads from a directory to one of its entries, two dots lead back up, and a
single dot and the empty part lead nowhere. Only a directory leads on, so a path through a file is
at fault even where it would come back. A name that begins with a slash, and one that climbs above
the topmost directory, leads to a place where there is nothing.

The lengths of a part and of a whole path are limited. The limits count bytes in UTF-8.
-/

namespace MonkeySyntax

/-- Why there is no file to be opened under a name. -/
inductive OpenFault where
  /-- A part of the name is no entry of its directory. -/
  | missing
  /-- The name goes on behind a file. -/
  | notDirectory
  /-- The name leads to a directory. -/
  | isDirectory
  | nameTooLong
  deriving DecidableEq, Repr

namespace OpenFault

/-- The number of a fault, as messages give it. -/
def code : OpenFault → Nat
  | missing => 2
  | notDirectory => 20
  | isDirectory => 21
  | nameTooLong => 36

/-- The wording of a fault. -/
def reason : OpenFault → String
  | missing => "No such file or directory"
  | notDirectory => "Not a directory"
  | isDirectory => "Is a directory"
  | nameTooLong => "File name too long"

end OpenFault

/-- A file system, as far as it matters: the bytes of the file under each name. -/
abbrev FileView := String → Except OpenFault (List UInt8)

/-- A file, or a directory with its entries. -/
inductive FileTree where
  | file (bytes : List UInt8)
  | directory (entries : List (String × FileTree))

namespace FileTree

/-- A directory without entries. -/
def empty : FileTree :=
  directory []

/-- The entries of a directory. -/
def entries : FileTree → List (String × FileTree)
  | file _ => []
  | directory entries => entries

/-! ### Paths -/

/-- The parts of a path, which stand between the slashes. -/
def partsOf : List Char → List (List Char)
  | [] => [[]]
  | c :: cs =>
    if c = '/' then [] :: partsOf cs
    else
      match partsOf cs with
      | [] => [[c]]
      | part :: parts => (c :: part) :: parts

/-- The parts of a name. -/
def parts (name : String) : List String :=
  (partsOf name.toList).map String.ofList

/-- The most bytes that a part of a path may have. -/
def maxPartSize : Nat := 255

/-- The most bytes that a path may have. -/
def maxPathSize : Nat := 4095

/-- The innermost of the enclosing trees, and those that enclose it in turn. Above the topmost
directory there is nothing, however far one climbs. -/
def climb : List FileTree → FileTree × List FileTree
  | [] => (empty, [])
  | outer :: enclosing => (outer, enclosing)

/-- Go along a path. The trees that enclose the one reached so far are given from the inside out;
they are where two dots lead to. -/
def walk : (enclosing : List FileTree) → (here : FileTree) → List String →
    Except OpenFault FileTree
  | _, here, [] => .ok here
  | _, file _, _ :: _ => .error .notDirectory
  | enclosing, directory entries, part :: parts =>
    if part = "" ∨ part = "." then walk enclosing (directory entries) parts
    else if part = ".." then
      walk (climb enclosing).2 (climb enclosing).1 parts
    else if maxPartSize < part.utf8ByteSize then .error .nameTooLong
    else
      match entries.lookup part with
      | none => .error .missing
      | some entry => walk (directory entries :: enclosing) entry parts

/-- What a name leads to from the topmost directory. -/
def find (tree : FileTree) (name : String) : Except OpenFault FileTree :=
  -- The length of the whole comes first: it is wrong wherever the path leads.
  if maxPathSize < name.utf8ByteSize then .error .nameTooLong
  else if name = "" then .error .missing
  else if name.toList.head? = some '/' then walk [] empty (parts name)
  else walk [] tree (parts name)

/-- The view from the topmost directory. -/
def view (tree : FileTree) : FileView := fun name =>
  match tree.find name with
  | .ok (file bytes) => .ok bytes
  | .ok (directory _) => .error .isDirectory
  | .error fault => .error fault

/-! ### Building trees -/

/-- The tree with another one put in place at the end of a path. Directories on the way that do not
exist are made. -/
def insert (leaf : FileTree) : List String → FileTree → FileTree
  | [], _ => leaf
  | part :: parts, tree =>
    let below := insert leaf parts ((tree.entries.lookup part).getD empty)
    directory ((part, below) :: tree.entries.filter (·.1 ≠ part))

/-- The directory that holds trees under the given names. -/
def ofList (named : List (String × FileTree)) : FileTree :=
  named.foldl (fun tree entry => insert entry.2 (parts entry.1) tree) empty

/-! ### What walking does -/

@[simp] theorem walk_nil (enclosing : List FileTree) (here : FileTree) :
    walk enclosing here [] = .ok here := by
  rw [walk]

/-- Nothing lies behind a file. -/
@[simp] theorem walk_file_cons (enclosing : List FileTree) (bytes : List UInt8) (part : String)
    (parts : List String) :
    walk enclosing (file bytes) (part :: parts) = .error .notDirectory := by
  rw [walk]

end FileTree

end MonkeySyntax
