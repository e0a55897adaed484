/-!
# Path names

Two path names are the same if they have the same components. Repeated and trailing slashes do not
matter, nor do single dots, except for one at the very beginning of a relative path.

## Main definitions

* `PathName.Components`, `PathName.components`, `PathName.same`
* `PathName.join`
-/

namespace PersistentTier.PathName

/-- What a path name amounts to. -/
structure Components where
  /-- Whether the path starts at the root directory. -/
  absolute : Bool
  /-- Whether a relative path starts with a single dot. -/
  fromHere : Bool
  /-- The names on the way. -/
  names : List String
  deriving DecidableEq, Repr

/-- The components of a path name. -/
def components (path : String) : Components :=
  let parts := path.splitOn "/"
  let absolute := path.startsWith "/"
  { absolute := absolute
    fromHere := !absolute && parts.head? == some "."
    names := parts.filter fun part => part != "" && part != "." }

/-- Whether two path names are the same. -/
def same (a b : String) : Bool := components a == components b

/-- The path name of a file in a directory. -/
def join (directory file : String) : String :=
  if directory.isEmpty || directory.endsWith "/" then directory ++ file
  else directory ++ "/" ++ file

end PersistentTier.PathName
