import Walkthrough.Flow.Document
import Walkthrough.Proofs.Checks
import Walkthrough.Proofs.Order
import Walkthrough.Proofs.Spread

/-!
# Flows that a document gives

What the checks of `Flow.ofDocument` leave of a flow: the names of its steps are distinct, the
schedule holds each of them behind its prerequisites, and there is a warning for each rule that reads
from a step which does not come before. The rest of the theory rests on `Flow.WellFormed` and not on
documents.
-/

namespace Walkthrough.Flow

open Walkthrough.Checks
open Relation (TransGen)

/-! ## Steps by name -/

section
variable {f : Flow} {id : String} {d : Step}

theorem mem_steps_of_step? (h : f.step? id = some d) : d ∈ f.steps :=
  List.mem_of_find?_eq_some h

theorem id_of_step? (h : f.step? id = some d) : d.id = id := by
  simpa using List.find?_some h

theorem step?_isSome_iff : (f.step? id).isSome = true ↔ id ∈ f.order := by
  simp [step?, order]

theorem mem_order_of_step? (h : f.step? id = some d) : id ∈ f.order := by
  rw [← step?_isSome_iff, h]
  rfl

theorem exists_step?_of_mem (h : id ∈ f.order) : ∃ d, f.step? id = some d :=
  Option.isSome_iff_exists.mp (step?_isSome_iff.mpr h)

theorem prerequisites_of_step? (h : f.step? id = some d) :
    f.prerequisites id = d.prerequisites := by
  simp [prerequisites, h]

theorem isManual_of_step? (h : f.step? id = some d) : f.isManual id = d.manual := by
  simp [isManual, h]

theorem mem_order_of_mem_prerequisites {p : String} (h : p ∈ f.prerequisites id) :
    id ∈ f.order := by
  by_contra absent
  rw [← step?_isSome_iff, Bool.not_eq_true, Option.isSome_eq_false_iff,
    Option.isNone_iff_eq_none] at absent
  simp [prerequisites, absent] at h

end

/-! ## Flows in good order -/

/-- The second step comes before the first one along the prerequisites. -/
def HasAncestor (f : Flow) : String → String → Prop :=
  TransGen (Linked f.prerequisites)

/-- What can be relied on in a flow that has been checked. -/
structure WellFormed (f : Flow) : Prop where
  distinct : f.order.Nodup
  /-- Every step is in the schedule behind its prerequisites. -/
  scheduled : ∀ id ∈ f.order, ∀ p ∈ f.prerequisites id,
    p ∈ f.order ∧ f.schedule.idxOf p < f.schedule.idxOf id

namespace WellFormed

variable {f : Flow}

theorem step?_of_mem (wf : f.WellFormed) {d : Step} (mem : d ∈ f.steps) : f.step? d.id = some d := by
  obtain ⟨e, found⟩ := exists_step?_of_mem (List.mem_map_of_mem mem)
  rw [found, List.inj_on_of_nodup_map wf.distinct (mem_steps_of_step? found) mem (id_of_step? found)]

theorem lt_of_hasAncestor (wf : f.WellFormed) {id a : String} (h : f.HasAncestor id a) :
    a ∈ f.order ∧ f.schedule.idxOf a < f.schedule.idxOf id := by
  induction h with
  | single link => exact wf.scheduled _ (mem_order_of_mem_prerequisites link) _ link
  | tail _ link ih =>
    obtain ⟨mem, before⟩ := wf.scheduled _ (mem_order_of_mem_prerequisites link) _ link
    exact ⟨mem, Nat.lt_trans before ih.2⟩

/-- What holds of a step when it holds of its ancestors holds of all declared steps. -/
theorem induction (wf : f.WellFormed) {motive : String → Prop}
    (step : ∀ id ∈ f.order, (∀ a, f.HasAncestor id a → motive a) → motive id) :
    ∀ id ∈ f.order, motive id := by
  intro id mem
  -- Ancestors have earlier places in the schedule.
  induction place : f.schedule.idxOf id using Nat.strongRecOn generalizing id with
  | _ n ih =>
    refine step id mem fun a ancestor => ?_
    obtain ⟨declared, before⟩ := wf.lt_of_hasAncestor ancestor
    exact ih _ (place ▸ before) a declared rfl

theorem mem_of_schedule_prefix (wf : f.WellFormed) {front : List String} {id p : String}
    (here : front ++ [id] <+: f.schedule) (new : id ∉ front) (link : p ∈ f.prerequisites id) :
    p ∈ front := by
  obtain ⟨back, whole⟩ := here
  obtain ⟨_, before⟩ := wf.scheduled id (mem_order_of_mem_prerequisites link) p link
  by_contra absent
  rw [← whole, List.append_assoc, List.idxOf_append_of_notMem absent,
    List.idxOf_append_of_notMem new, List.singleton_append, List.idxOf_cons_self] at before
  omega

end WellFormed

/-! ## What the checks leave -/

/-- What has been found of an entry that declares a step. -/
theorem declarationOf_ok_iff {seen : List String} {index : Nat} {v : Value} {d : Declaration} :
    declarationOf seen index v = .ok d ↔ ∃ s, v.entries? = some s ∧
      (s.get? "id").bind Value.text? = some d.id ∧ Text.allBlank d.id = false ∧ d.id ∉ seen ∧
        manualOf d.id (s.get? "manual") = .ok d.manual ∧
          textsOf ("step '" ++ d.id ++ "' extract") (s.get? "extract") = .ok d.extract ∧
            textsOf ("step '" ++ d.id ++ "' url_fields") (s.get? "url_fields") = .ok d.urlFields ∧
              d.title = ((s.get? "title").bind Value.text?).getD d.id ∧
                d.description = ((s.get? "description").bind Value.text?).getD "" := by
  unfold declarationOf
  constructor
  · intro h
    split at h
    · cases h
    next s mapping =>
      split at h
      · cases h
      next id named =>
        split at h
        · cases h
        next visible =>
          split at h
          · cases h
          next fresh =>
            obtain ⟨manual, marked, h⟩ := bind_ok_iff.mp h
            obtain ⟨extract, kept, h⟩ := bind_ok_iff.mp h
            obtain ⟨urlFields, completed, h⟩ := bind_ok_iff.mp h
            cases h
            exact ⟨s, mapping, named, by simpa using visible, by simpa using fresh, marked, kept,
              completed, rfl, rfl⟩
  · rintro ⟨s, mapping, named, visible, fresh, marked, kept, completed, title, description⟩
    have new : seen.contains d.id = false := by simpa using fresh
    simp only [mapping, named, visible, new, marked, kept, completed, ok_bind]
    rw [← title, ← description]
    rfl

theorem declarationsFrom_distinct {seen : List String} {index : Nat} {values : List Value}
    {ds : List Declaration} (h : declarationsFrom seen index values = .ok ds) :
    (ds.map (·.id)).Nodup ∧ ∀ d ∈ ds, d.id ∉ seen := by
  induction values generalizing seen index ds with
  | nil =>
    cases h
    simp
  | cons v values ih =>
    obtain ⟨d, first, h⟩ := bind_ok_iff.mp h
    obtain ⟨others, rest, h⟩ := bind_ok_iff.mp h
    cases h
    obtain ⟨distinct, apart⟩ := ih rest
    simp only [List.mem_append, List.mem_singleton, not_or] at apart
    refine ⟨List.nodup_cons.mpr ⟨fun again => ?_, distinct⟩, ?_⟩
    · obtain ⟨e, mem, same⟩ := List.mem_map.mp again
      exact (apart e mem).2 same
    · rintro e (_ | ⟨_, mem⟩)
      · obtain ⟨_, _, _, _, fresh, _⟩ := declarationOf_ok_iff.mp first
        exact fresh
      · exact (apart e mem).1

theorem declarationsOf_distinct {v : Option Value} {ds : List Declaration}
    (h : declarationsOf v = .ok ds) : (ds.map (·.id)).Nodup := by
  unfold declarationsOf at h
  split at h
  · exact (declarationsFrom_distinct h).1
  · cases h

theorem known_ok_iff {ids : List String} {place : Place} {id : String} :
    known ids place id = .ok () ↔ id ∈ ids := by
  simp [known]

theorem mem_of_lookup {β : Type} {entries : List (String × β)} {id : String} {b : β}
    (h : entries.lookup id = some b) : (id, b) ∈ entries := by
  obtain ⟨before, after, equal, _⟩ := List.lookup_eq_some_iff.mp h
  rw [equal]
  exact List.mem_append_right before List.mem_cons_self

theorem nodup_eraseDups (names : List String) : names.eraseDups.Nodup := by
  induction size : names.length using Nat.strongRecOn generalizing names with
  | _ n ih =>
    cases names with
    | nil => exact List.nodup_nil
    | cons name names =>
      rw [List.eraseDups_cons, List.nodup_cons]
      refine ⟨by simp, ih _ ?_ _ rfl⟩
      -- What is left to look at lacks the first name, so it is shorter.
      have shorter := List.length_filter_le (fun other => !other == name) names
      rw [List.length_cons] at size
      omega

/-- Prerequisites are noted for declared steps alone, each once, and are declared steps. -/
theorem entry_of_linksOf {ids : List String} {v : Option Value} {links : Order.Links}
    (h : linksOf ids v = .ok links) {id : String} {ps : List String} (mem : (id, ps) ∈ links) :
    id ∈ ids ∧ ps.Nodup ∧ ∀ p ∈ ps, p ∈ ids := by
  obtain ⟨entries, _, h⟩ := bind_ok_iff.mp h
  obtain ⟨e, _, made⟩ := exists_of_mem_mapM h mem
  obtain ⟨_, first, made⟩ := bind_ok_iff.mp made
  obtain ⟨_, _, made⟩ := bind_ok_iff.mp made
  obtain ⟨_, others, made⟩ := bind_ok_iff.mp made
  cases made
  refine ⟨known_ok_iff.mp first, nodup_eraseDups _, fun p inList => ?_⟩
  exact known_ok_iff.mp (forM_ok_iff.mp others p (List.mem_eraseDups.mp inList))

theorem mem_of_linksOf {ids : List String} {v : Option Value} {links : Order.Links}
    (h : linksOf ids v = .ok links) {id p : String} (link : p ∈ Order.linksOf links id) :
    id ∈ ids ∧ p ∈ ids := by
  unfold Order.linksOf at link
  cases found : links.lookup id with
  | none => simp [found] at link
  | some ps =>
    rw [found] at link
    obtain ⟨declared, _, known⟩ := entry_of_linksOf h (mem_of_lookup found)
    exact ⟨declared, known p link⟩

/-! ## The flow of a document -/

section
variable {doc : Option Value} {f : Flow}

structure Parts where
  declarations : List Declaration
  links : Order.Links
  templates : Ledger Request
  rules : List (String × List Rule)
  endpointDefaults : Record String
  schedule : List String

def Parts.ids (p : Parts) : List String :=
  p.declarations.map (·.id)

def Parts.steps (p : Parts) : List Step :=
  p.declarations.map (stepOf p.links p.templates p.rules)

def Parts.flow (p : Parts) : Flow :=
  { steps := p.steps, endpointDefaults := p.endpointDefaults, schedule := p.schedule
    warnings := p.steps.flatMap (warningsOf p.links p.ids.length) }

/-- The parts that the sections of a document give, each checked. -/
structure Parts.From (p : Parts) (sections : Record Value) : Prop where
  declarations : declarationsOf (sections.get? "steps") = .ok p.declarations
  links : linksOf p.ids (sections.get? "dependencies") = .ok p.links
  templates : templatesOf p.ids sections = .ok p.templates
  checked : ∀ d ∈ p.declarations, checkTemplate p.templates d = .ok ()
  rules : rulesOf p.ids (sections.get? "substitution_rules") = .ok p.rules
  endpointDefaults : endpointsOf sections = .ok p.endpointDefaults
  schedule : Order.sort p.ids p.links = .ok p.schedule

/-- A flow that a document gives is made of checked parts. -/
theorem parts_of_ofDocument (h : ofDocument doc = .ok f) :
    ∃ sections p, doc.bind Value.entries? = some sections ∧ Parts.From p sections ∧ f = p.flow := by
  unfold ofDocument at h
  split at h
  · cases h
  next sections found =>
    obtain ⟨declarations, h1, h⟩ := bind_ok_iff.mp h
    obtain ⟨links, h2, h⟩ := bind_ok_iff.mp h
    obtain ⟨templates, h3, h⟩ := bind_ok_iff.mp h
    obtain ⟨_, h4, h⟩ := bind_ok_iff.mp h
    obtain ⟨rules, h5, h⟩ := bind_ok_iff.mp h
    obtain ⟨endpointDefaults, h6, h⟩ := bind_ok_iff.mp h
    obtain ⟨schedule, h7, h⟩ := bind_ok_iff.mp h
    refine ⟨sections, ⟨declarations, links, templates, rules, endpointDefaults, schedule⟩, found,
      ⟨h1, h2, h3, forM_ok_iff.mp h4, h5, h6, mapError_ok_iff.mp h7⟩, ?_⟩
    exact (pure_ok_iff.mp h).symm

variable {sections : Record Value} {p : Parts}

theorem Parts.order_flow (p : Parts) : p.flow.order = p.ids := by
  simp [order, flow, steps, ids, stepOf]

/-- The prerequisites of a step are those in its entry. -/
theorem Parts.From.prerequisites (made : p.From sections) :
    p.flow.prerequisites = Order.linksOf p.links := by
  funext id
  by_cases mem : id ∈ p.flow.order
  · obtain ⟨d, found⟩ := exists_step?_of_mem mem
    obtain ⟨e, _, rfl⟩ := List.mem_map.mp (mem_steps_of_step? found)
    have same : e.id = id := id_of_step? found
    rw [prerequisites_of_step? found, ← same]
    rfl
  · -- There are no entries for names that are not declared.
    have none : Order.linksOf p.links id = [] := by
      refine List.eq_nil_iff_forall_not_mem.mpr fun a link => mem ?_
      rw [order_flow]
      exact (mem_of_linksOf made.links link).1
    refine none ▸ List.eq_nil_iff_forall_not_mem.mpr fun a link => ?_
    exact mem (mem_order_of_mem_prerequisites link)

theorem Parts.From.wellFormed (made : p.From sections) : p.flow.WellFormed := by
  have distinct : p.ids.Nodup := declarationsOf_distinct made.declarations
  obtain ⟨perm, behind, _⟩ := Order.sort_ok distinct made.schedule
  constructor
  · rw [order_flow]
    exact distinct
  · intro id mem a link
    rw [order_flow] at mem ⊢
    rw [made.prerequisites] at link
    exact ⟨(mem_of_linksOf made.links link).2, behind.idxOf_lt (perm.mem_iff.mpr mem) link⟩

theorem wellFormed_of_ofDocument (h : ofDocument doc = .ok f) : f.WellFormed := by
  obtain ⟨sections, p, _, made, rfl⟩ := parts_of_ofDocument h
  exact made.wellFormed

/-! ## Warnings -/

theorem Parts.From.mem_ancestors_iff (made : p.From sections) {id x : String} :
    x ∈ ancestors p.links p.ids.length id ↔ p.flow.HasAncestor id x := by
  rw [HasAncestor, made.prerequisites]
  exact mem_spread_iff fun a b link => (mem_of_linksOf made.links link).2

open Classical in
/-- The warnings of a flow when it is warned of exactly the given reads, each by a rule of a step from
another step: one warning for each such rule, in order. -/
noncomputable def warningsOn (f : Flow) (amiss : Step → Rule → String → Prop) : List String :=
  f.steps.flatMap fun d => d.rules.filterMap fun r =>
    match r.reference with
    | .field x _ =>
      if amiss d r x then
        some ("step '" ++ d.id ++ "' substitutes " ++ r.token ++ " from '" ++ x ++
          "', which it does not depend on")
      else none
    | .setting _ => none

open Classical in
theorem warningsOn_congr {amiss other : Step → Rule → String → Prop}
    (h : ∀ d ∈ f.steps, ∀ r ∈ d.rules, ∀ x name, r.reference = .field x name →
      (amiss d r x ↔ other d r x)) : f.warningsOn amiss = f.warningsOn other := by
  refine List.flatMap_congr fun d mem => List.filterMap_congr fun r inRules => ?_
  cases reads : r.reference with
  | field x name => exact if_congr (h d mem r inRules x name reads) rfl rfl
  | setting name => rfl

/-- There is a warning for each rule that reads from a step which does not come before, and no
other. -/
theorem warnings_eq (h : ofDocument doc = .ok f) :
    f.warnings = f.warningsOn fun d _ x => ¬f.HasAncestor d.id x := by
  obtain ⟨sections, p, _, made, rfl⟩ := parts_of_ofDocument h
  refine List.flatMap_congr fun d mem => List.filterMap_congr fun r inRules => ?_
  unfold warning?
  cases reads : r.reference with
  | field x name =>
    by_cases before : p.flow.HasAncestor d.id x
    · simp [made.mem_ancestors_iff, before]
    · simp [made.mem_ancestors_iff, before]
  | setting name => rfl

/-- Without warnings, a step reads from its ancestors alone. -/
theorem hasAncestor_of_mem_sources (h : ofDocument doc = .ok f) (quiet : f.warnings = [])
    {d : Step} (mem : d ∈ f.steps) {x : String} (reads : x ∈ d.sources) :
    f.HasAncestor d.id x := by
  rw [warnings_eq h, warningsOn, List.flatMap_eq_nil_iff] at quiet
  obtain ⟨r, inRules, source⟩ := List.mem_filterMap.mp reads
  have silent := List.filterMap_eq_nil_iff.mp (quiet d mem) r inRules
  cases written : r.reference with
  | setting name => simp [written] at source
  | field step name =>
    have same : step = x := by simpa [written] using source
    simpa [written, same] using silent

end

end Walkthrough.Flow
