/-!
# Message channels

The channels for messages form a tree below one root; a name from elsewhere is put below it.
-/

namespace TypeSketch.Channel

def root : String := "jsonshape"

/-- The full name of a channel. -/
def qualify (name : String) : String :=
  if name = "" ∨ name = root then root
  else if (root ++ ".").toList.isPrefixOf name.toList then name
  else root ++ "." ++ name

end TypeSketch.Channel
