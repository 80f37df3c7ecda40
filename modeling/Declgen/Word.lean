/-!
# Words

Numbers that documents and manifests hold are read as words of 64 bits with sign.
-/

namespace Declgen

/-- Whether a number has 64 bits with sign. -/
def fitsWord (n : Int) : Bool := -9223372036854775808 ≤ n && n ≤ 9223372036854775807

end Declgen
