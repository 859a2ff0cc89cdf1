import MapCatalog.Binary64.Layout

/-! # Errors of styles -/

namespace MapCatalog

inductive StyleError where
  /-- The zoom of a breakpoint is not between 0 and 22. -/
  | zoomOutOfRange (list : String) (index : Nat) (zoom : Binary64)
  /-- The value of a breakpoint is infinite or NaN. -/
  | valueNotFinite (list : String) (index : Nat)
deriving DecidableEq

namespace StyleError

/-- The text for the log, which counts breakpoints from zero. -/
def message : StyleError → String
  | .zoomOutOfRange list index zoom =>
      list ++ " breakpoint " ++ toString index ++ ": zoom " ++ zoom.message ++ " is outside 0..=22"
  | .valueNotFinite list index =>
      list ++ " breakpoint " ++ toString index ++ ": value is not a finite number"

/-- The text for the reader, which counts breakpoints from one. -/
def userMessage : StyleError → String
  | .zoomOutOfRange list index _ =>
      "Zoom level #" ++ toString (index + 1) ++ " in the " ++ list ++
        " list must be between 0 and 22."
  | .valueNotFinite list index =>
      "Value #" ++ toString (index + 1) ++ " in the " ++ list ++ " list must be a number."

end StyleError

end MapCatalog
