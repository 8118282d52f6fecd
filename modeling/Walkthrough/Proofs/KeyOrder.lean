import Walkthrough.Proofs.Record
import Walkthrough.Proofs.Renaming

/-!
# The order of keys

A document may list the entries of a section in any order (`Flow.Resorted`). The checks of an entry
look at the entry alone, apart from the one that a step has a single template, and what is read is
looked up by name. So a document describes a flow in every order of its sections or in none, and the
flow is the same (`Flow.ofDocument_of_resorted`). The steps themselves are a list, and so are the
rules of a step; their order counts.
-/

namespace Walkthrough

open Checks

variable {α : Type} {a b : List (String × α)}

/-! ## Reordered entries -/

theorem Reordered.symm (h : Reordered a b) : Reordered b a := fun name => (h name).symm

theorem slice_cons_self {e : String × α} {name : String} (same : e.1 = name) :
    slice name (e :: a) = e :: slice name a :=
  List.filter_cons_of_pos (by simpa using same)

theorem slice_cons_of_ne {e : String × α} {name : String} (apart : e.1 ≠ name) :
    slice name (e :: a) = slice name a :=
  List.filter_cons_of_neg (by simpa using apart)

/-- Entries of distinct names can be put in any order. -/
theorem reordered_of_perm (perm : a.Perm b) (distinct : (Ledger.names a).Nodup) :
    Reordered a b := by
  induction perm with
  | nil => exact .refl []
  | cons e _ ih => exact .append (.refl [e]) (ih (List.nodup_cons.mp distinct).2)
  | swap x y l =>
    obtain ⟨first, _⟩ := List.nodup_cons.mp distinct
    exact .swap (fun same => first (List.mem_map.mpr ⟨x, List.mem_cons_self, same.symm⟩)) l
  | trans first _ ih ih' =>
    have names : (Ledger.names _).Perm (Ledger.names _) := first.map Prod.fst
    exact fun name => (ih distinct name).trans (ih' (names.nodup_iff.mp distinct) name)

/-! ## Records laid over one another -/

namespace Record

variable {r r' more more' : Record α} {name other : String} {value : α}

theorem slice_replace :
    slice name (r.replace other value) = replace (slice name r) other value := by
  have kept (e : String × α) :
      ((if e.1 == other then (other, value) else e).1 == name) = (e.1 == name) := by
    by_cases same : e.1 = other <;> simp [same]
  simp only [slice, replace, List.filter_map, Function.comp_def, kept]

theorem slice_insert_of_ne (apart : other ≠ name) :
    slice name (r.insert other value) = slice name r := by
  induction r with
  | nil => exact slice_cons_of_ne apart
  | cons e r ih =>
    unfold insert
    split
    · exact slice_cons_of_ne apart
    · by_cases same : e.1 = name
      · rw [slice_cons_self same, slice_cons_self same, ih]
      · rw [slice_cons_of_ne same, slice_cons_of_ne same, ih]

theorem slice_eq_nil_iff : slice name r = [] ↔ name ∉ r.names := by
  rw [slice, List.filter_eq_nil_iff, names, List.mem_map]
  simp only [beq_iff_eq, not_exists, not_and]

theorem slice_insert_self (new : name ∉ r.names) :
    slice name (r.insert name value) = [(name, value)] := by
  induction r with
  | nil => exact slice_cons_self rfl
  | cons e r ih =>
    obtain ⟨apart, later⟩ : name ≠ e.1 ∧ name ∉ names r := by simpa [names] using new
    unfold insert
    split
    · rw [slice_cons_self (e := (name, value)) rfl, slice_eq_nil_iff.mpr new]
    · rw [slice_cons_of_ne apart.symm, ih later]

theorem has_slice : has (slice name r) name = r.has name := by
  simp [has, slice, List.any_filter]

theorem slice_put_self :
    slice name (r.put name value) = put (slice name r) name value := by
  unfold put
  rw [has_slice]
  split
  · exact slice_replace
  next new =>
    rw [has_iff] at new
    rw [slice_insert_self new, slice_eq_nil_iff.mpr new]
    rfl

theorem slice_put_of_ne (apart : other ≠ name) : slice name (r.put other value) = slice name r := by
  unfold put
  split
  · rw [slice_replace]
    refine (List.map_congr_left fun e mem => ?_).trans (List.map_id _)
    have named : e.1 = name := by simpa using (List.mem_filter.mp mem).2
    simp [named, apart.symm]
  · exact slice_insert_of_ne apart

/-- Laying a record over another one works name by name. -/
theorem slice_overlay : slice name (r.overlay more) = overlay (slice name r) (slice name more) := by
  induction more generalizing r with
  | nil => rfl
  | cons e more ih =>
    have step : slice name (r.overlay (e :: more)) =
        overlay (slice name (r.put e.1 e.2)) (slice name more) := ih
    rw [step]
    by_cases same : e.1 = name
    · subst same
      rw [slice_put_self, slice_cons_self rfl]
      rfl
    · rw [slice_put_of_ne same, slice_cons_of_ne same]

theorem overlay_reordered (h : Reordered r r') (h' : Reordered more more') :
    Reordered (r.overlay more) (r'.overlay more') := by
  intro name
  rw [slice_overlay, slice_overlay, h name, h' name]

end Record

/-! ## Documents -/

namespace Flow

/-- The second mapping is the first one with the entries of its sections in another order. The steps
are a list and stay as they are. -/
structure SectionsResorted (doc doc' : Record Value) : Prop where
  steps : doc'.get? "steps" = doc.get? "steps"
  dependencies : Shuffled (doc.get? "dependencies") (doc'.get? "dependencies")
  commands : Shuffled (doc.get? "curl_templates") (doc'.get? "curl_templates")
  requests : Shuffled (doc.get? "requests") (doc'.get? "requests")
  rules : Shuffled (doc.get? "substitution_rules") (doc'.get? "substitution_rules")
  endpointDefaults : Shuffled (doc.get? "endpoint_defaults") (doc'.get? "endpoint_defaults")
  endpoints : Shuffled (doc.get? "endpoints") (doc'.get? "endpoints")

/-- The second document is the first one, with the entries of its sections in any order if it is a
mapping. -/
inductive Resorted : Option Value → Option Value → Prop
  | same (doc : Option Value) : Resorted doc doc
  | mapping {doc doc' : Record Value} (h : SectionsResorted doc doc') :
      Resorted (some (.mapping doc)) (some (.mapping doc'))

section
variable {v v' : Option Value} {ids : List String} {doc doc' : Record Value} {p p' : Parts}

theorem Shuffled.symm (h : Shuffled v v') : Shuffled v' v := by
  cases h with
  | same => exact .same _
  | mapping h => exact .mapping h.symm

theorem SectionsResorted.symm (h : SectionsResorted doc doc') : SectionsResorted doc' doc :=
  ⟨h.steps.symm, h.dependencies.symm, h.commands.symm, h.requests.symm, h.rules.symm,
    h.endpointDefaults.symm, h.endpoints.symm⟩

theorem Resorted.symm (h : Resorted v v') : Resorted v' v := by
  cases h with
  | same => exact .same _
  | mapping h => exact .mapping h.symm

/-! ### Sections -/

theorem templatesOf_resorted (resorted : SectionsResorted doc doc')
    (unreserved : Record.reserved ∉ ids) {templates : Ledger Request}
    (h : templatesOf ids doc = .ok templates) :
    ∃ templates', templatesOf ids doc' = .ok templates' ∧ Reordered templates templates' := by
  obtain ⟨commands, written, h⟩ := bind_ok_iff.mp h
  obtain ⟨read, each, h⟩ := bind_ok_iff.mp h
  obtain ⟨entries, listed, h⟩ := bind_ok_iff.mp h
  obtain ⟨commands', written', moved⟩ := resorted.commands.textMapOf written
  obtain ⟨read', each', moved⟩ := commands_reordered moved each
  obtain ⟨entries', listed', swapped⟩ := resorted.requests.entriesOf listed
  obtain ⟨templates', added, moved⟩ := foldlM_addRequest_reordered unreserved swapped moved h
  exact ⟨templates', bind_ok_iff.mpr ⟨_, written', bind_ok_iff.mpr ⟨_, each',
    bind_ok_iff.mpr ⟨_, listed', added⟩⟩⟩, moved⟩

theorem endpointsOf_resorted (resorted : SectionsResorted doc doc') {endpoints : Record String}
    (h : endpointsOf doc = .ok endpoints) :
    ∃ endpoints', endpointsOf doc' = .ok endpoints' ∧ Reordered endpoints endpoints' := by
  obtain ⟨defaults, first, h⟩ := bind_ok_iff.mp h
  obtain ⟨own, second, h⟩ := bind_ok_iff.mp h
  cases h
  obtain ⟨defaults', first', moved⟩ := resorted.endpointDefaults.textMapOf first
  obtain ⟨own', second', movedToo⟩ := resorted.endpoints.textMapOf second
  exact ⟨_, bind_ok_iff.mpr ⟨_, first', bind_ok_iff.mpr ⟨_, second', rfl⟩⟩,
    Record.overlay_reordered moved movedToo⟩

/-! ### Parts -/

/-- The second parts are the first ones with their entries in another order. -/
structure Parts.Resorted (p p' : Parts) : Prop where
  declarations : p'.declarations = p.declarations
  links : Reordered p.links p'.links
  templates : Reordered p.templates p'.templates
  rules : Reordered p.rules p'.rules
  endpointDefaults : Reordered p.endpointDefaults p'.endpointDefaults
  schedule : p'.schedule = p.schedule

theorem linksOf_reordered {links links' : Order.Links} (h : Reordered links links') :
    Order.linksOf links' = Order.linksOf links := by
  funext id
  rw [Order.linksOf, Order.linksOf, lookup_eq_get?, lookup_eq_get?, h.get?_eq]

theorem sort_reordered {links links' : Order.Links} (h : Reordered links links')
    {out : List String} (sorted : Order.sort ids links = .ok out) :
    Order.sort ids links' = .ok out := by
  have follows : Order.Follows id links links' := by
    intro x
    rw [linksOf_reordered h, id, List.map_id]
  simpa using Order.sort_relabel ⟨Function.injective_id, rfl⟩ follows sorted

theorem Parts.Resorted.flow_eq (resorted : p.Resorted p') :
    p'.flow = { p.flow with endpointDefaults := p'.endpointDefaults } := by
  have step (d : Declaration) :
      stepOf p'.links p'.templates p'.rules d = stepOf p.links p.templates p.rules d := by
    simp only [stepOf, linksOf_reordered resorted.links, lookup_eq_get?, resorted.templates.get?_eq,
      resorted.rules.get?_eq]
  have steps : p'.steps = p.steps := by
    unfold steps
    rw [resorted.declarations]
    exact List.map_congr_left fun d _ => step d
  have warnings : warningsOf p'.links p'.ids.length = warningsOf p.links p.ids.length := by
    funext d
    simp only [warningsOf, ancestors, linksOf_reordered resorted.links, ids, resorted.declarations]
  simp only [flow, steps, warnings, resorted.schedule]

theorem Parts.From.exists_resorted (made : p.From doc) (resorted : SectionsResorted doc doc') :
    ∃ p', p'.From doc' ∧ p.Resorted p' := by
  have distinct : p.ids.Nodup := declarationsOf_distinct made.declarations
  have unreserved := (Order.sort_ok distinct made.schedule).2.2
  obtain ⟨links, linked, movedLinks⟩ := resorted.dependencies.linksOf made.links
  obtain ⟨templates, given, movedTemplates⟩ :=
    templatesOf_resorted resorted unreserved made.templates
  obtain ⟨rules, ruled, movedRules⟩ := resorted.rules.rulesOf made.rules
  obtain ⟨endpoints, named, movedEndpoints⟩ := endpointsOf_resorted resorted made.endpointDefaults
  refine ⟨⟨p.declarations, links, templates, rules, endpoints, p.schedule⟩, ?_,
    ⟨rfl, movedLinks, movedTemplates, movedRules, movedEndpoints, rfl⟩⟩
  constructor
  case declarations => exact resorted.steps ▸ made.declarations
  case links => exact linked
  case templates => exact given
  case checked =>
    intro d mem
    have before := checkTemplate_ok_iff.mp (made.checked d mem)
    rwa [checkTemplate_ok_iff, ← Ledger.isSome_get?, ← movedTemplates.get?_eq, Ledger.isSome_get?]
  case rules => exact ruled
  case endpointDefaults => exact named
  case schedule => exact sort_reordered movedLinks made.schedule

/-! ### Flows -/

theorem exists_flow_of_resorted {f : Flow} (resorted : Resorted v v')
    (compiled : ofDocument v = .ok f) :
    ∃ endpoints, ofDocument v' = .ok { f with endpointDefaults := endpoints } ∧
      Reordered f.endpointDefaults endpoints := by
  cases resorted with
  | same => exact ⟨_, compiled, .refl _⟩
  | mapping resorted =>
    obtain ⟨_, p, found, made, rfl⟩ := parts_of_ofDocument compiled
    cases found
    obtain ⟨p', made', moved⟩ := made.exists_resorted resorted
    refine ⟨p'.endpointDefaults, ?_, moved.endpointDefaults⟩
    rw [ofDocument_of_parts made', moved.flow_eq]

/-- The order of the entries in the sections of a document decides neither whether there is a flow
nor which one: only the endpoints are found in another order. -/
theorem ofDocument_of_resorted (resorted : Resorted v v') :
    ((∃ f, ofDocument v = .ok f) ↔ ∃ f', ofDocument v' = .ok f') ∧
      ∀ f f', ofDocument v = .ok f → ofDocument v' = .ok f' →
        f' = { f with endpointDefaults := f'.endpointDefaults } ∧
          Reordered f.endpointDefaults f'.endpointDefaults := by
  refine ⟨⟨?_, ?_⟩, fun f f' compiled compiled' => ?_⟩
  · rintro ⟨f, compiled⟩
    obtain ⟨endpoints, compiled', _⟩ := exists_flow_of_resorted resorted compiled
    exact ⟨_, compiled'⟩
  · rintro ⟨f', compiled'⟩
    obtain ⟨endpoints, compiled, _⟩ := exists_flow_of_resorted resorted.symm compiled'
    exact ⟨_, compiled⟩
  · obtain ⟨endpoints, same, moved⟩ := exists_flow_of_resorted resorted compiled
    rw [same] at compiled'
    cases compiled'
    exact ⟨rfl, moved⟩

/-- Every section turned around, in a document with commands, one of them blank, and requests. -/
theorem same_flow_turned_around : ∃ (doc doc' : Option Value) (f f' : Flow),
    Resorted doc doc' ∧ ofDocument doc = .ok f ∧ ofDocument doc' = .ok f' ∧
      f.endpointDefaults = [("api", "/v2"), ("web", "/web"), ("docs", "/docs")] ∧
        f'.endpointDefaults = [("web", "/web"), ("api", "/v2"), ("docs", "/docs")] ∧
          f' = { f with endpointDefaults := f'.endpointDefaults } ∧
            Reordered f.endpointDefaults f'.endpointDefaults := by
  let steps : Value := .list [.mapping [("id", .text "login"), ("manual", .bool true)],
    .mapping [("id", .text "list")], .mapping [("id", .text "edit")],
    .mapping [("id", .text "drop")]]
  let links : Record Value :=
    [("list", .list [.text "login"]), ("edit", .list [.text "list", .text "login"])]
  let commands : Record Value := [("list", .text "curl u"), ("edit", .text " ")]
  let requests : Record Value :=
    [("edit", .mapping [("url", .text "/edit/<key>")]), ("drop", .mapping [("url", .text "/drop")])]
  let rules : Record Value :=
    [("list", .mapping []), ("edit", .mapping [("<key>", .text "step.login.key")])]
  let defaults : Record Value := [("api", .text "/v1"), ("web", .text "/web")]
  let endpoints : Record Value := [("docs", .text "/docs"), ("api", .text "/v2")]
  let doc : Record Value := [("steps", steps), ("dependencies", .mapping links),
    ("curl_templates", .mapping commands), ("requests", .mapping requests),
    ("substitution_rules", .mapping rules), ("endpoint_defaults", .mapping defaults),
    ("endpoints", .mapping endpoints)]
  let doc' : Record Value := [("steps", steps), ("dependencies", .mapping links.reverse),
    ("curl_templates", .mapping commands.reverse), ("requests", .mapping requests.reverse),
    ("substitution_rules", .mapping rules.reverse),
    ("endpoint_defaults", .mapping defaults.reverse), ("endpoints", .mapping endpoints.reverse)]
  let f : Flow :=
    { steps :=
        [⟨"login", "login", "", [], [], [], none, []⟩,
          ⟨"list", "list", "", [], [], ["login"], some ⟨"GET", "u", [], none, none⟩, []⟩,
          ⟨"edit", "edit", "", [], [], ["list", "login"],
            some ⟨"GET", "/edit/<key>", [], none, none⟩,
            [⟨"<key>", .field "login" "key", "step.login.key", none⟩]⟩,
          ⟨"drop", "drop", "", [], [], [], some ⟨"GET", "/drop", [], none, none⟩, []⟩]
      endpointDefaults := [("api", "/v2"), ("web", "/web"), ("docs", "/docs")]
      schedule := ["login", "drop", "list", "edit"]
      warnings := [] }
  let f' : Flow :=
    { f with endpointDefaults := [("web", "/web"), ("api", "/v2"), ("docs", "/docs")] }
  have turned {r : Record Value} (distinct : (Ledger.names r).Nodup) :
      Shuffled (some (.mapping r)) (some (.mapping r.reverse)) :=
    .mapping (reordered_of_perm (List.reverse_perm r).symm distinct)
  have resorted : SectionsResorted doc doc' :=
    ⟨rfl, turned (by decide), turned (by decide), turned (by decide), turned (by decide),
      turned (by decide), turned (by decide)⟩
  have compiled : ofDocument (some (.mapping doc)) = .ok f := rfl
  have compiled' : ofDocument (some (.mapping doc')) = .ok f' := rfl
  obtain ⟨same, moved⟩ := (ofDocument_of_resorted (.mapping resorted)).2 f f' compiled compiled'
  exact ⟨_, _, f, f', .mapping resorted, compiled, compiled', rfl, rfl, same, moved⟩

end

end Flow

end Walkthrough
