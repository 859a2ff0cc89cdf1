import MapCatalog.Proofs.Catalog.Consistency
import MapCatalog.Proofs.Editor.Submitted
import MapCatalog.Proofs.Service.Requests

/-! # Services that were reached from an empty store -/

namespace MapCatalog

namespace Service

def InRangeBody (request : Request) : Prop :=
  ∀ body, request.body = some body → body.Every Json.Number.InRange

/-- A service at which requests arrive that were handled from an empty store on. -/
def Reached (service : Service) : Prop :=
  ∃ (start : Service) (visits : List Visit), start.catalog = .empty ∧
    Catalog.NeverRepeats start.catalog (start.history visits) ∧
    (∀ visit ∈ visits, InRangeBody visit.request) ∧ service = start.after visits

/-- Every operation of a run is what the route of one of its requests asks for. -/
theorem exists_asks_of_mem_history {service : Service} {visits : List Visit}
    {operation : Operation} (h : operation ∈ service.history visits) :
    ∃ visit ∈ visits, ∃ route, Asks visit.request visit.fresh route operation := by
  induction visits generalizing service with
  | nil =>
      cases h
  | cons visit rest ih =>
      rw [history, List.mem_append, Option.mem_toList] at h
      rcases h with hfirst | hrest
      · exact ⟨visit, List.mem_cons_self, asks_of_operation? hfirst⟩
      · obtain ⟨other, hother, hasks⟩ := ih hrest
        exact ⟨other, List.mem_cons_of_mem visit hother, hasks⟩

theorem Asks.brings {request : Request} {fresh : BitVec 128} {route : Route}
    {operation : Operation} (h : Asks request fresh route operation) (hbody : InRangeBody request) :
    operation.Brings (fun _ => True) (fun fields => fields.camera.Finite)
      LayerFields.Submitted := by
  have hfinite : FiniteBody request := fun body hsome => Json.finite_of_inRange (hbody body hsome)
  refine h.brings_body.mono (fun _ _ => trivial) ?_ ?_
  · intro fields hfields
    exact holds_of_needBody GroupFields.yields_finite hfinite hfields
  · rintro fields ⟨form, hform, hfields⟩
    exact LayerFields.submitted_of_toFields (holds_of_needBody LayerForm.yields_finite hfinite hform)
      (holds_of_known LayerForm.yields_holdsMaps
        (fun body hsome => (hbody body hsome).normalize) hform) hfields

structure Sound (service : Service) : Prop where
  wellFormed : Catalog.WellFormed service.catalog
  named : Catalog.Named service.catalog
  stores : Catalog.Stores (fun _ => True) (fun fields => fields.camera.Finite)
    LayerFields.Submitted service.catalog

theorem Reached.sound {service : Service} (h : Reached service) : Sound service := by
  obtain ⟨start, visits, hempty, hids, hbodies, rfl⟩ := h
  have hwell : Catalog.WellFormed start.catalog := hempty ▸ Catalog.wellFormed_empty
  obtain ⟨hcatalog, -⟩ := wellFormed_steps hwell hids
  constructor
  · exact hcatalog ▸ hwell.run hids
  · rw [hcatalog]
    refine hids.run_induction (hempty ▸ Catalog.named_empty) ?_
    exact fun _ _ _ _ hnamed _ hok => hnamed.perform hok
  · rw [hcatalog]
    refine Catalog.Stores.run (hempty ▸ Catalog.Stores.of_empty) fun operation hoperation => ?_
    obtain ⟨visit, hvisit, route, hasks⟩ := exists_asks_of_mem_history hoperation
    exact hasks.brings (hbodies visit hvisit)

end Service

end MapCatalog
