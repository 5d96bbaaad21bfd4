/-! # Version -/

namespace MinangScript

def version : String := "0.1.0"

end MinangScript
