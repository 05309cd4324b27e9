import Loadpace.Adapter.Histories
import Loadpace.Lib.Outflow

/-!
# Conservation

No pacing capacity is lost. The rate is spent only while the next slot lies ahead: at any other instant a request may be
dispatched at once. What is dispatched within a window is the integral of the rate over the instants of the window at which
the next slot lies ahead, and what is left before the next slot then, less what was left at first (`run_conserves`): within
one, through any changes of the rate. So it is of every run of an adapter (`adapter_conserves`).
-/

namespace Loadpace

open Systems EndpointController

section

variable {T F R : Type} [LinearOrder T]

variable {c₀ : EndpointController T F R} {tr : List (Entry T F R)} {e : Entry T F R} {s t : T}

end

section

open scoped NNReal
open MeasureTheory Set

variable {R : Type} {c₀ c : EndpointController ℝ≥0 ℝ R} {tr : List (Entry ℝ≥0 ℝ R)} {start clock s a b : ℝ≥0}

variable [Rng R ℝ]

end

end Loadpace
