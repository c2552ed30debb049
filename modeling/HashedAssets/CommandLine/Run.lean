import HashedAssets.CommandLine.Bundle
import HashedAssets.CommandLine.Command
import HashedAssets.CommandLine.Inspect

/-!
# Running commands

* `Command.run`: what a command leaves in a tree of files;
* `helpText`: the text that explains the commands.
-/

namespace HashedAssets.CommandLine

/-- What a command leaves. -/
def Command.run (t : FileTree) : Command → Outcome
  | .bundle settings root out => CommandLine.bundle t settings root out
  | .inspect settings root => CommandLine.inspect t settings root

/-- The text that explains the commands. -/
def helpText : String :=
  "usage: [-h] [-v] \x7bbundle,inspect\x7d ...\n\nContent-hashed asset resolution\n\n"
    ++ "  bundle SETTINGS --root ROOT --out OUT   Write resolved assets and manifest\n"
    ++ "  inspect SETTINGS --root ROOT            Show evaluation order and dependencies\n"

end HashedAssets.CommandLine
