/-!
# Version

The version of this library.
-/

namespace Stencil

/-- The version of this library. -/
def version : String := "0.1.0"

end Stencil
