import Formula.File.Text

/-! # Trees of files

A tree of files is given by the paths and contents of its files.  The directories
are those that the paths go through.  Paths are looked up from the root of the
tree, which is the working directory; of what is outside only the directory
around it is known.
-/
namespace Formula
namespace File

/-- The files below one directory: the names on the way to each, and its
content. -/
structure Tree where
  files : List (List String × ByteArray)

namespace Tree

/-- The tree with files at these paths. -/
def ofList (files : List (String × ByteArray)) : Tree :=
  ⟨files.map fun (path, content) => (path.splitOn "/", content)⟩

/-- The content of the file at the end of a way. -/
def content? (tree : Tree) (way : List String) : Option ByteArray :=
  tree.files.lookup way

/-- Whether a way leads to a directory. -/
def isDirectory (tree : Tree) (way : List String) : Bool :=
  way.isEmpty || tree.files.any fun (file, _) => way.isPrefixOf file && way != file

/-- What a way outside of the tree leads to: a directory as long as it goes
through no name. -/
def outside (names : List String) : Except FileError ByteArray :=
  if names.all ["", ".", ".."].contains then .error .isDirectory else .error .notFound

/-- Follow names from the directory at the end of a way.  An empty name and a
single dot stay in a directory, and two dots lead back. -/
def follow (tree : Tree) (way : List String) : List String → Except FileError ByteArray
  | [] => .error .isDirectory
  | name :: names =>
    if name = "" ∨ name = "." then tree.follow way names
    else if name = ".." then
      if way.isEmpty then outside names else tree.follow way.dropLast names
    else
      let further := way ++ [name]
      match tree.content? further with
      | some content => if names.isEmpty then .ok content else .error .notADirectory
      | none =>
        if tree.isDirectory further then tree.follow further names
        else .error .notFound

/-- The content of the file at a path. -/
def lookup (tree : Tree) : Lookup := fun path =>
  if path = "" then .error .notFound
  else if path.startsWith "/" then outside (path.splitOn "/")
  else tree.follow [] (path.splitOn "/")

end Tree
end File
end Formula
