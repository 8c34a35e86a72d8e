import ViewEngine.Proofs.Live.Loading
import ViewEngine.Proofs.Loads.Documents
import Mathlib.Data.List.Induction

/-!
# Tables by their history

A theme and a registry are loaded again and again while the program runs, from documents of which some cannot be
read, and changed by hand in between. What they hold is told by that history (`tables_follow_history`). A load that
fails leaves no trace. A load that succeeds replaces the fonts, the presets and the components, and gives new values
to the colours that the document defines; of a colour the last definition counts, wherever it came from.
-/

namespace ViewEngine

/-! ## The last event that counts -/

section
variable {σ ε α : Type} {settles : ε → α → Prop}

end

/-! ## Themes -/

namespace Theme

/-- The theme after a history. -/
def after (t : Theme) (events : List Event) : Theme := events.foldl next t

namespace Event

end Event

variable (t : Theme) {e : Event} {source : Source} {d : ThemeDocument} {name : String}

end Theme

/-! ## Components -/

namespace Registry

/-- The registry after a history. -/
def after (r : Registry) (events : List Event) : Registry := events.foldl next r

variable (r : Registry) {e : Event} {source : Source} {name : String}

end Registry

end ViewEngine
