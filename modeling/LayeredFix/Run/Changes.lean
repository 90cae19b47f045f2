import LayeredFix.Text.Basic

/-!
# Measuring a change

How many lines a change touches, and what it seems to have added. Lines are compared one by one at equal
places; a line put in near the top therefore counts for all lines after it.
-/

namespace LayeredFix

/-- The number of places at which two lists differ; a place that one list lacks counts. -/
def placesChanged : List Text → List Text → Nat
  | [], bs => bs.length
  | as, [] => as.length
  | a :: as, b :: bs => (if a == b then 0 else 1) + placesChanged as bs

/-- The number of lines that a change touches. -/
def changeCount (before after : Text) : Nat := placesChanged (Text.lines before) (Text.lines after)

/-- The texts that show an improvement, and the improvement. -/
def improvementMarkers : List (String × String) :=
  [("key=", "Added missing key props"),
   ("alt=", "Improved accessibility"),
   ("typeof window", "Added SSR guards"),
   ("use client", "Added client directive"),
   ("isLoading", "Added loading state"),
   ("WithErrorBoundary", "Added fallback render")]

/-- Whether a marker is new after a change. -/
def isNew (before after : Text) (marker : String) : Bool :=
  Text.occursIn marker.toList after && !Text.occursIn marker.toList before

/-- What a change seems to have improved. -/
def improvements (before after : Text) : List Text :=
  if before == after then []
  else
    "Code transformation applied".toList ::
      (improvementMarkers.filter fun m => isNew before after m.1).map fun m => m.2.toList

end LayeredFix
