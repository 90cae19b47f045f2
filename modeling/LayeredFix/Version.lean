/-!
# The version of the library
-/

namespace LayeredFix

/-- The version of the library. -/
def version : String := "0.1.0"

end LayeredFix
