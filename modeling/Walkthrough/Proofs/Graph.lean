import Walkthrough.Proofs.Flow
import Walkthrough.Proofs.Record
import Walkthrough.Proofs.Reference

/-!
# Graphs that documents describe

The sections of a document are checked one by one. `Flow.Sound` is what the checks come to for the
flow as a whole: its steps are those of the document's list, its tables are keyed by exactly these
steps, the prerequisites run among them without a cycle and the schedule follows them, and every
rule says where its value comes from in the way in which the document says it.
-/

namespace Walkthrough.Flow

open Walkthrough.Checks

/-! ## Tables -/

section
variable {α : Type} {f : Flow} {id : String}

/-- A part of the steps by the names of the steps that have it. -/
def table (f : Flow) (part : Step → Option α) : Record α :=
  Record.ofList (f.steps.filterMap fun d => (part d).map fun v => (d.id, v))

theorem mem_names_table {part : Step → Option α} :
    id ∈ (f.table part).names ↔ ∃ d ∈ f.steps, d.id = id ∧ (part d).isSome = true := by
  unfold table
  rw [Record.mem_names_ofList]
  simp only [List.mem_map, List.mem_filterMap, Option.map_eq_some_iff]
  constructor
  · rintro ⟨_, ⟨d, mem, v, given, rfl⟩, rfl⟩
    exact ⟨d, mem, rfl, by rw [given]; rfl⟩
  · rintro ⟨d, mem, rfl, given⟩
    obtain ⟨v, given⟩ := Option.isSome_iff_exists.mp given
    exact ⟨_, ⟨d, mem, v, given, rfl⟩, rfl⟩

theorem mem_names_table_some (part : Step → α) :
    id ∈ (f.table fun d => some (part d)).names ↔ id ∈ f.order := by
  rw [mem_names_table, order, List.mem_map]
  refine exists_congr fun d => and_congr_right fun _ => ?_
  exact and_iff_left rfl

theorem mem_names_templates :
    id ∈ (f.table (·.template)).names ↔ ∃ d ∈ f.steps, d.id = id ∧ d.manual = false := by
  rw [mem_names_table]
  refine exists_congr fun d => and_congr_right fun _ => and_congr_right fun _ => ?_
  unfold Step.manual
  cases d.template <;> simp

end

/-! ## Declarations -/

theorem manualOf_ok_iff {id : String} {v : Option Value} {b : Bool} (h : manualOf id v = .ok b) :
    b = true ↔ v = some (.bool true) := by
  unfold manualOf at h
  split at h
  · cases h
    simp
  · cases h
    simp
  · cases h

/-- An entry of the list of steps declares a step: it gives the name of the step, and it marks the
step as manual exactly when the step is. -/
structure Declares (entry : Value) (d : Step) : Prop where
  named : (entry.entries?.bind (Record.get? · "id")).bind Value.text? = some d.id
  marked : d.manual = true ↔ entry.entries?.bind (Record.get? · "manual") = some (.bool true)

theorem forall₂_of_declarationsFrom {seen : List String} {index : Nat} {values : List Value}
    {ds : List Declaration} (h : declarationsFrom seen index values = .ok ds) :
    List.Forall₂ (fun v d => ∃ seen index, declarationOf seen index v = .ok d) values ds := by
  induction values generalizing seen index ds with
  | nil =>
    cases h
    exact .nil
  | cons v values ih =>
    obtain ⟨d, first, h⟩ := bind_ok_iff.mp h
    obtain ⟨others, rest, h⟩ := bind_ok_iff.mp h
    cases h
    exact .cons ⟨seen, index, first⟩ (ih rest)

theorem forall₂_of_declarationsOf {v : Option Value} {ds : List Declaration}
    (h : declarationsOf v = .ok ds) : ∃ items, v = some (.list items) ∧ items ≠ [] ∧
      List.Forall₂ (fun v d => ∃ seen index, declarationOf seen index v = .ok d) items ds := by
  unfold declarationsOf at h
  split at h
  next first rest => exact ⟨first :: rest, rfl, List.cons_ne_nil _ _, forall₂_of_declarationsFrom h⟩
  next => cases h

/-- A step that has been checked has a template unless it is declared as manual. -/
theorem manual_of_checkTemplate {templates : Ledger Request} {d : Declaration}
    (h : checkTemplate templates d = .ok ()) : (templates.get? d.id).isNone = d.manual := by
  have has := Ledger.isSome_get? templates d.id
  unfold checkTemplate at h
  cases found : templates.get? d.id with
  | none =>
    rw [found] at has
    simp only [← has, Option.isSome_none] at h
    cases manual : d.manual with
    | true => rfl
    | false => simp [manual] at h
  | some r =>
    rw [found] at has
    simp only [← has, Option.isSome_some] at h
    cases manual : d.manual with
    | true => simp [manual] at h
    | false => rfl

/-! ## Rules -/

/-- A rule has a token, reads from a declared step if from any, and has its reference as it is
written. -/
structure RuleSound (ids : List String) (r : Rule) : Prop where
  token : r.token ≠ ""
  source : ∀ step name, r.reference = .field step name → step ∈ ids
  written : Reference.write r.reference = r.source

theorem ruleOf_ok_iff {ids : List String} {step : String} {scope : Option Scope}
    {e : String × Value} {r : Rule} : ruleOf ids step scope e = .ok r ↔
      e.1 ≠ "" ∧ e.2.text? = some r.source ∧ Reference.read? r.source = some r.reference ∧
        (∀ id name, r.reference = .field id name → id ∈ ids) ∧ r.token = e.1 ∧ r.scope = scope := by
  unfold ruleOf
  constructor
  · intro h
    split at h
    · cases h
    next source written =>
      obtain ⟨token, h⟩ := check_ok_iff.mp h
      rw [throw_ok_iff, imp_false, String.isEmpty_iff] at token
      split at h
      · cases h
      next reference read =>
        cases reference with
        | field id name =>
          obtain ⟨_, declared, h⟩ := bind_ok_iff.mp h
          cases h
          refine ⟨token, written, read, fun step field reads => ?_, rfl, rfl⟩
          cases reads
          exact known_ok_iff.mp declared
        | setting name =>
          cases h
          exact ⟨token, written, read, fun step field reads => (by cases reads), rfl, rfl⟩
  · rintro ⟨token, written, read, declared, same, limited⟩
    have named : e.1.isEmpty = false := by
      rw [Bool.eq_false_iff, ne_eq, String.isEmpty_iff]
      exact token
    obtain ⟨_, reference, source, _⟩ := r
    cases same
    cases limited
    simp only [written, read, named]
    cases reference with
    | field id name =>
      simp only [known_ok_iff.mpr (declared id name rfl)]
      rfl
    | setting name => rfl

theorem sound_of_ruleOf {ids : List String} {step : String} {scope : Option Scope}
    {e : String × Value} {r : Rule} (h : ruleOf ids step scope e = .ok r) : RuleSound ids r := by
  obtain ⟨token, _, read, declared, same, _⟩ := ruleOf_ok_iff.mp h
  exact ⟨same ▸ token, declared, Reference.write_of_read? read⟩

theorem sound_of_rulesOfEntry {ids : List String} {step : String} {e : String × Value}
    {rules : List Rule} (h : rulesOfEntry ids step e = .ok rules) :
    ∀ r ∈ rules, RuleSound ids r := by
  intro r mem
  unfold rulesOfEntry at h
  split at h
  · obtain ⟨_, _, made⟩ := exists_of_mem_mapM h mem
    exact sound_of_ruleOf made
  · obtain ⟨alone, made, rfl⟩ := map_ok_iff.mp h
    rw [List.mem_singleton.mp mem]
    exact sound_of_ruleOf made

theorem sound_of_rulesOf {ids : List String} {v : Option Value}
    {rules : List (String × List Rule)} (h : rulesOf ids v = .ok rules) :
    ∀ e ∈ rules, ∀ r ∈ e.2, RuleSound ids r := by
  intro e mem r inRules
  obtain ⟨_, _, h⟩ := bind_ok_iff.mp h
  obtain ⟨_, _, h⟩ := exists_of_mem_mapM h mem
  obtain ⟨_, _, h⟩ := bind_ok_iff.mp h
  obtain ⟨_, _, h⟩ := bind_ok_iff.mp h
  obtain ⟨parts, made, h⟩ := bind_ok_iff.mp h
  cases h
  obtain ⟨part, inParts, inPart⟩ := List.mem_flatten.mp inRules
  obtain ⟨_, _, made⟩ := exists_of_mem_mapM made inParts
  exact sound_of_rulesOfEntry made r inPart

/-! ## The graph -/

/-- What a document's sections and the flow that is built from them have to do with each other, and
what the rest of the program takes for granted in a flow. -/
structure Sound (sections : Record Value) (f : Flow) : Prop where
  /-- The steps are those of the list of steps, in its order. -/
  declared : ∃ items, sections.get? "steps" = some (.list items) ∧ List.Forall₂ Declares items f.steps
  nonempty : f.order ≠ []
  distinct : f.order.Nodup
  /-- The tables of steps, prerequisites and rules have the steps as keys, and the table of
  templates those that are not manual. -/
  definitions : ∀ id, id ∈ (f.table some).names ↔ id ∈ f.order
  dependencies : ∀ id, id ∈ (f.table fun d => some d.prerequisites).names ↔ id ∈ f.order
  rules : ∀ id, id ∈ (f.table fun d => some d.rules).names ↔ id ∈ f.order
  templates : ∀ id, id ∈ (f.table (·.template)).names ↔ ∃ d ∈ f.steps, d.id = id ∧ d.manual = false
  linked : ∀ d ∈ f.steps, d.prerequisites.Nodup ∧ ∀ p ∈ d.prerequisites, p ∈ f.order
  acyclic : ∀ id, ¬f.HasAncestor id id
  /-- The schedule holds every step once, behind its prerequisites. -/
  scheduled : f.schedule.Perm f.order ∧
    ∀ d ∈ f.steps, ∀ front back, f.schedule = front ++ d.id :: back → ∀ p ∈ d.prerequisites, p ∈ front
  referring : ∀ d ∈ f.steps, ∀ r ∈ d.rules, RuleSound f.order r

section
variable {sections : Record Value} {p : Parts}

theorem nodup_of_linksOf {ids : List String} {v : Option Value} {links : Order.Links}
    (h : linksOf ids v = .ok links) (id : String) : (Order.linksOf links id).Nodup := by
  unfold Order.linksOf
  cases found : links.lookup id with
  | none => exact List.nodup_nil
  | some ps => exact (entry_of_linksOf h (mem_of_lookup found)).2.1

theorem declares_of_declarationOf {seen : List String} {index : Nat} {entry : Value}
    {d : Declaration} (h : declarationOf seen index entry = .ok d)
    (checked : checkTemplate p.templates d = .ok ()) :
    Declares entry (stepOf p.links p.templates p.rules d) := by
  obtain ⟨s, mapping, named, _, _, marked, _⟩ := declarationOf_ok_iff.mp h
  refine ⟨by rw [mapping]; exact named, ?_⟩
  rw [mapping, Step.manual]
  change (p.templates.get? d.id).isNone = true ↔ _
  rw [manual_of_checkTemplate checked]
  exact manualOf_ok_iff marked

theorem forall₂_declares {items : List Value} {ds : List Declaration}
    (each : List.Forall₂ (fun v d => ∃ seen index, declarationOf seen index v = .ok d) items ds)
    (checked : ∀ d ∈ ds, checkTemplate p.templates d = .ok ()) :
    List.Forall₂ Declares items (ds.map (stepOf p.links p.templates p.rules)) := by
  induction each with
  | nil => exact .nil
  | cons first _ ih =>
    obtain ⟨here, later⟩ := List.forall_mem_cons.mp checked
    obtain ⟨_, _, declared⟩ := first
    exact .cons (declares_of_declarationOf declared here) (ih later)

theorem Parts.From.rule_sound (made : p.From sections) {d : Declaration} {r : Rule}
    (mem : r ∈ (stepOf p.links p.templates p.rules d).rules) : RuleSound p.ids r := by
  change r ∈ (p.rules.lookup d.id).getD [] at mem
  cases found : p.rules.lookup d.id with
  | none => simp [found] at mem
  | some rules =>
    rw [found] at mem
    exact sound_of_rulesOf made.rules _ (mem_of_lookup found) r mem

theorem Parts.From.sound (made : p.From sections) : Sound sections p.flow := by
  have distinct : p.ids.Nodup := declarationsOf_distinct made.declarations
  obtain ⟨perm, behind, _⟩ := Order.sort_ok distinct made.schedule
  obtain ⟨items, listed, nonempty, each⟩ := forall₂_of_declarationsOf made.declarations
  have steps := forall₂_declares each made.checked
  constructor
  case declared => exact ⟨items, listed, steps⟩
  case nonempty =>
    intro empty
    rw [p.order_flow, Parts.ids, List.map_eq_nil_iff] at empty
    rw [empty, List.forall₂_nil_right_iff] at each
    exact nonempty each
  case distinct =>
    rw [p.order_flow]
    exact distinct
  case definitions => exact fun id => mem_names_table_some fun d => d
  case dependencies => exact fun id => mem_names_table_some _
  case rules => exact fun id => mem_names_table_some _
  case templates => exact fun id => mem_names_templates
  case linked =>
    intro d mem
    obtain ⟨e, declared, rfl⟩ := List.mem_map.mp mem
    refine ⟨nodup_of_linksOf made.links e.id, fun a link => ?_⟩
    rw [p.order_flow]
    exact (mem_of_linksOf made.links link).2
  case acyclic =>
    -- An ancestor has an earlier place in the schedule.
    intro id cycle
    exact Nat.lt_irrefl _ (made.wellFormed.lt_of_hasAncestor cycle).2
  case scheduled =>
    rw [p.order_flow]
    refine ⟨perm, fun d mem front back at_id a link => ?_⟩
    obtain ⟨e, declared, rfl⟩ := List.mem_map.mp mem
    have inFront := behind.mem_of_append at_id a link
    rwa [List.nil_append] at inFront
  case referring =>
    intro d mem r inRules
    obtain ⟨e, declared, rfl⟩ := List.mem_map.mp mem
    rw [p.order_flow]
    exact made.rule_sound inRules

end

end Walkthrough.Flow
