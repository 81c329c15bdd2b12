import TypeSketch.Options
import TypeSketch.Text.Blank

/-!
# Configuration files

The options that a file sets.  They stand at its root or in a section of their own; a file or a
section without a value sets nothing.  The data of a file is told by a library, which is a parameter
here.
-/

namespace TypeSketch

/-- Why the library gives no data. -/
inductive LoadFault
  /-- A text that the library refuses. -/
  | malformed
  /-- A fault that the library does not count among its own. -/
  | other (message : String)

/-- A library that reads data from a text. -/
abbrev Loader := List Char → Except LoadFault Setting

/-- Why a configuration file gives no options. -/
inductive FileFault
  | config (fault : ConfigFault)
  /-- A fault of the library that is passed on. -/
  | loader (message : String)

namespace Config

/-- The key of the section. -/
def sectionKey : MapKey := .literal (.str "jsonshape")

/-- The options of the data in a file with the given name. -/
def ofData (name : String) : Setting → Except ConfigFault Options
  | .null => .ok {}
  | .map entries =>
      match Setting.get? sectionKey (.map entries) with
      | none => Options.ofSetting (.map entries)
      | some .null => .ok {}
      | some s => Options.ofSetting s
  | _ => .error (.fileNotAMapping name)

/-- The options of a file with the given name and text. -/
def ofText (load : Loader) (name : String) (text : List Char) : Except FileFault Options :=
  match load (Text.unifyBreaks text) with
  | .error .malformed => .error (.config (.unreadableFile name))
  | .error (.other message) => .error (.loader message)
  | .ok data => (ofData name data).mapError .config

end Config

end TypeSketch
