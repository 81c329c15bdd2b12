import TypeSketch.Bundled.Stream
import TypeSketch.Bundled.Terminal.Markup
import TypeSketch.Bundled.Terminal.Table
import TypeSketch.Bundled.Yaml.Document
import TypeSketch.Command.Run

/-!
# Libraries to run with

Stand-ins for the libraries that the program uses, so that it runs by itself.  The theory of the
program is about any libraries, and nothing in it mentions these.
-/

namespace TypeSketch.Bundled

def load : Loader := fun text =>
  match Yaml.parse text with
  | some data => .ok data
  | none => .error .malformed

/-- Prints to what is no terminal, so that styles and colours leave no trace. -/
def console : Console where
  isTerminal := false
  markup s := Terminal.printed (Terminal.Markup.shown s) ++ ['\n']
  plain s := Terminal.printed s ++ ['\n']
  highlighted s := Terminal.printed s ++ ['\n']
  table := Terminal.renderTable

def libraries : Libraries where
  stream := stream
  load := load
  escape := Terminal.Markup.escape
  output := console
  errors := console

end TypeSketch.Bundled
