/-!
# Durability modes

A mode says when writes reach stable storage. Its name is read without regard to the case of ASCII
letters.
-/

namespace PersistentTier

/-- When writes reach stable storage. -/
inductive Durability
  /-- Before an operation returns. -/
  | sync
  /-- At a checkpoint and on closing. -/
  | async
  /-- Never: nothing touches disk. -/
  | none
  deriving DecidableEq, Repr, Inhabited

namespace Durability

/-- The name of a mode in reports. -/
def text : Durability → String
  | .sync => "Sync"
  | .async => "Async"
  | .none => "None"

/-- The mode of a given name, or a complaint. -/
def ofText (s : String) : Except String Durability :=
  match s.map Char.toLower with
  | "sync" => .ok .sync
  | "async" => .ok .async
  | "none" => .ok .none
  | other => .error s!"unknown durability mode '{other}'"

end Durability

end PersistentTier
