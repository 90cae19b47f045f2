import LayeredFix.Number.Basic
import LayeredFix.Sha256
import LayeredFix.Text.Utf8

/-!
# Keys of the cache

A run is known in the cache by its text, by the set of its layers, and by a variant that keeps apart runs
which may end differently. The three are written one after another, a zero byte between them, and the
digest of that is the key. The layers are written in ascending order without repetition, so neither order
nor repetition in a request matters.
-/

namespace LayeredFix.CacheKey

/-- A number put into an ascending list of numbers, unless it is there. -/
def insertNumber (n : Int) : List Int → List Int
  | [] => [n]
  | m :: ms => if m < n then m :: insertNumber n ms else if m == n then m :: ms else n :: m :: ms

/-- Numbers in ascending order without repetition. -/
def sortedUnique (ns : List Int) : List Int := ns.foldr insertNumber []

/-- Numbers in ascending order without repetition, with commas between them. -/
def layerText (ids : List Int) : Text := List.intercalate [','] ((sortedUnique ids).map Text.ofInt)

/-- The bytes whose digest is the key. -/
def preimage (variant : Text) (ids : List Int) (t : Text) : List UInt8 :=
  Utf8.encode variant ++ 0 :: (Utf8.encode (layerText ids) ++ 0 :: Utf8.encode t)

/-- The key of a run. -/
def key (variant : Text) (ids : List Int) (t : Text) : Text := Sha256.hex (preimage variant ids t)

end LayeredFix.CacheKey
