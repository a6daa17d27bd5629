import BlockCompiler.Name.Path
import Std.Data.ExtTreeMap
import Std.Data.ExtTreeSet

/-!
# The order of paths

Paths are compared segment by segment, and segments by code point. Tables of symbols are kept in
this order, and whatever lists them shows it.
-/

namespace BlockCompiler.Path

instance : Ord Path := ⟨compareOn segments⟩

instance : Std.TransOrd Path :=
  inferInstanceAs (Std.TransCmp (compareOn segments))

instance : Std.LawfulEqOrd Path where
  eq_of_compare h := Path.ext (Std.compare_eq_iff_eq.1 h)

end BlockCompiler.Path
