import Walkthrough.Proofs.Sections

/-!
# Names of steps

The names of the steps are names only: a document in which the steps are renamed everywhere describes
the same flow with the steps renamed (`Flow.ofDocument_of_renames`). A new name must not be blank and
must not hold a dot, because references end the name of a step there. One more name is taken: no flow
has a step with the reserved name, so a document that gets one describes no flow.
-/

namespace Walkthrough

open Checks

/-! ## Renamed flows -/

/-- The step under its new name; `title` is the one that the document gives. -/
def Step.rename (σ : String → String) (title : Option String) (d : Step) : Step :=
  { d with
    id := σ d.id
    title := title.getD (σ d.id)
    prerequisites := d.prerequisites.map σ
    rules := d.rules.map (Rule.rename σ) }

namespace Flow

/-- What a warning is about: a rule of a step, by its token, that reads from a source which does not
come before the step. -/
structure Alert where
  id : String
  token : String
  source : String

def Alert.text (a : Alert) : String :=
  "step '" ++ a.id ++ "' substitutes " ++ a.token ++ " from '" ++ a.source ++
    "', which it does not depend on"

def Alert.rename (σ : String → String) (a : Alert) : Alert :=
  { a with id := σ a.id, source := σ a.source }

/-- What there is to warn of in a rule of a step; `before` are the steps that come before. -/
def alert? (id : String) (before : List String) (r : Rule) : Option Alert :=
  match r.reference with
  | .field step _ => if before.contains step then none else some ⟨id, r.token, step⟩
  | .setting _ => none

/-- What there is to warn of in a flow. -/
def alerts (f : Flow) : List Alert :=
  f.steps.flatMap fun d =>
    d.rules.filterMap (alert? d.id (spread f.prerequisites f.steps.length [d.id] []))

/-- The flow with its steps renamed; `titles` are those that the document gives. -/
def rename (σ : String → String) (titles : List (Option String)) (f : Flow) : Flow :=
  { steps := List.zipWith (Step.rename σ) titles f.steps
    endpointDefaults := f.endpointDefaults
    schedule := f.schedule.map σ
    warnings := (f.alerts.map (Alert.rename σ)).map Alert.text }

/-- A renaming of the steps of a flow, which leaves all other names alone. -/
def naming (f : Flow) (ρ : String → String) (name : String) : String :=
  if name ∈ f.order then ρ name else name

section
variable {ids : List String} {σ τ : String → String} {v : Option Value}

/-! ## Warnings -/

theorem warning?_eq_map (id : String) (before : List String) (r : Rule) :
    warning? id before r = (alert? id before r).map Alert.text := by
  unfold warning? alert?
  cases r.reference with
  | field step name =>
    dsimp only
    split <;> rfl
  | setting name => rfl

theorem alert?_rename (injective : Function.Injective τ) (id : String) (before : List String)
    (r : Rule) :
    alert? (τ id) (before.map τ) (r.rename τ) = (alert? id before r).map (Alert.rename τ) := by
  unfold alert? Rule.rename
  cases r.reference with
  | field step name =>
    simp only [Reference.rename, contains_map injective]
    split <;> rfl
  | setting name => rfl

theorem Parts.From.warnings_eq {doc : Record Value} {p : Parts} (made : p.From doc) :
    p.flow.warnings = p.flow.alerts.map Alert.text := by
  have rounds : p.flow.steps.length = p.ids.length := by simp [Parts.flow, Parts.steps, Parts.ids]
  unfold alerts
  rw [made.prerequisites, rounds, List.map_flatMap]
  refine List.flatMap_congr fun d _ => ?_
  rw [List.map_filterMap]
  exact List.filterMap_congr fun r _ => warning?_eq_map _ _ r

/-- What is made of the second list alone, with something of the first list put in. -/
theorem map_zipWith_of_length {α β γ δ : Type} {z : α → β → γ} {f : γ → δ} {g : β → δ}
    (each : ∀ a b, f (z a b) = g b) {xs : List α} {ys : List β} (full : xs.length = ys.length) :
    (List.zipWith z xs ys).map f = ys.map g := by
  induction xs generalizing ys with
  | nil =>
    rw [List.length_nil] at full
    rw [List.eq_nil_of_length_eq_zero full.symm]
    rfl
  | cons x xs ih =>
    cases ys with
    | nil => cases full
    | cons y ys =>
      rw [List.zipWith_cons_cons, List.map_cons, List.map_cons, each,
        ih (Nat.succ_inj.mp full)]

theorem exists_of_mem_zipWith {α β γ : Type} {z : α → β → γ} {xs : List α} {ys : List β} {c : γ}
    (h : c ∈ List.zipWith z xs ys) : ∃ x, ∃ y ∈ ys, c = z x y := by
  rw [← List.map_uncurry_zip_eq_zipWith] at h
  obtain ⟨⟨x, y⟩, mem, rfl⟩ := List.mem_map.mp h
  exact ⟨x, y, (List.of_mem_zip mem).2, rfl⟩

theorem alerts_rename (injective : Function.Injective τ) {f g : Flow} {titles : List (Option String)}
    (full : titles.length = f.steps.length)
    (steps : g.steps = List.zipWith (Step.rename τ) titles f.steps)
    (follows : ∀ id, g.prerequisites (τ id) = (f.prerequisites id).map τ) :
    g.alerts = f.alerts.map (Alert.rename τ) := by
  have rounds : g.steps.length = f.steps.length := by
    rw [steps, List.length_zipWith, full, Nat.min_self]
  unfold alerts
  rw [List.map_flatMap, List.flatMap_def, List.flatMap_def, rounds, steps]
  refine congrArg List.flatten (map_zipWith_of_length (fun title d => ?_) full)
  have before := spread_map injective follows f.steps.length [d.id] []
  rw [List.map_singleton, List.map_nil] at before
  simp only [Step.rename, before, List.filterMap_map, List.map_filterMap, Function.comp_def,
    alert?_rename injective]

/-! ## The flow under other names -/

section
variable {doc doc' : Record Value} {p : Parts}

theorem checkTemplate_ok_iff {templates : Ledger Request} {d : Declaration} :
    checkTemplate templates d = .ok () ↔ templates.has d.id = !d.manual := by
  unfold checkTemplate
  cases d.manual <;> cases templates.has d.id <;> simp

theorem follows_of_reordered (injective : Function.Injective τ) {links links' : Order.Links}
    (moved : Reordered (links.map (Prod.map τ (List.map τ))) links') :
    Order.Follows τ links links' := by
  intro id
  rw [← Order.linksOf_map injective]
  unfold Order.linksOf
  rw [lookup_eq_get?, lookup_eq_get?, moved.get?_eq]

theorem titlesOf_length {ds : List Declaration} (h : declarationsOf v = .ok ds) :
    (titlesOf v).length = ds.length := by
  obtain ⟨items, rfl, _, each⟩ := forall₂_of_declarationsOf h
  rw [titlesOf, List.length_map, each.length_eq]

/-- The second parts are the first ones under other names, as far as they are looked at by step. -/
structure Parts.Renamed (τ : String → String) (titles : List (Option String)) (p p' : Parts) :
    Prop where
  full : titles.length = p.declarations.length
  declarations : p'.declarations = List.zipWith (Declaration.rename τ) titles p.declarations
  links : Order.Follows τ p.links p'.links
  templates : ∀ id, p'.templates.get? (τ id) = p.templates.get? id
  rules : ∀ id, p'.rules.lookup (τ id) = (p.rules.lookup id).map (List.map (Rule.rename τ))
  endpointDefaults : p'.endpointDefaults = p.endpointDefaults
  schedule : p'.schedule = p.schedule.map τ

namespace Parts.Renamed

variable {titles : List (Option String)} {p' : Parts}

theorem ids_eq (renamed : Renamed τ titles p p') : p'.ids = p.ids.map τ := by
  have each (title : Option String) (d : Declaration) : (d.rename τ title).id = τ d.id := rfl
  unfold ids
  rw [renamed.declarations, map_zipWith_of_length each renamed.full, List.map_map]
  rfl

theorem stepOf_eq (renamed : Renamed τ titles p p') (title : Option String) (d : Declaration) :
    stepOf p'.links p'.templates p'.rules (d.rename τ title) =
      (stepOf p.links p.templates p.rules d).rename τ title := by
  have rules : (p'.rules.lookup (τ d.id)).getD [] =
      ((p.rules.lookup d.id).getD []).map (Rule.rename τ) := by
    rw [renamed.rules]
    cases p.rules.lookup d.id <;> rfl
  simp only [stepOf, Declaration.rename, Step.rename, renamed.links d.id, renamed.templates, rules]

theorem steps_eq (renamed : Renamed τ titles p p') :
    p'.steps = List.zipWith (Step.rename τ) titles p.steps := by
  unfold steps
  rw [renamed.declarations, List.map_zipWith, List.zipWith_map_right]
  simp only [renamed.stepOf_eq]

theorem checked (renamed : Renamed τ titles p p')
    (h : ∀ d ∈ p.declarations, checkTemplate p.templates d = .ok ()) :
    ∀ d ∈ p'.declarations, checkTemplate p'.templates d = .ok () := by
  intro d mem
  rw [renamed.declarations] at mem
  obtain ⟨title, e, declared, rfl⟩ := exists_of_mem_zipWith mem
  have before := checkTemplate_ok_iff.mp (h e declared)
  rw [checkTemplate_ok_iff, ← Ledger.isSome_get?, Declaration.rename, renamed.templates,
    Ledger.isSome_get?]
  exact before

theorem flow_eq (renamed : Renamed τ titles p p') (injective : Function.Injective τ)
    (made : p.From doc) (made' : p'.From doc') : p'.flow = p.flow.rename τ titles := by
  have alerts : p'.flow.alerts = p.flow.alerts.map (Alert.rename τ) := by
    refine alerts_rename injective ?_ renamed.steps_eq fun id => ?_
    · rw [renamed.full]
      exact (List.length_map _).symm
    · rw [made'.prerequisites, made.prerequisites]
      exact renamed.links id
  have warnings := made'.warnings_eq
  rw [alerts] at warnings
  unfold rename
  rw [← warnings]
  simp only [flow, renamed.steps_eq, renamed.endpointDefaults, renamed.schedule]

end Parts.Renamed

/-- The parts of a document under other names. -/
theorem Parts.From.exists_renamed (made : p.From doc) (relabels : Relabels τ)
    (ext : Extends p.ids σ τ) (kept : σ Record.reserved = Record.reserved)
    (renames : Renames σ doc doc') :
    ∃ p', p'.From doc' ∧ p.Renamed τ (titlesOf (doc.get? "steps")) p' := by
  have distinct : p.ids.Nodup := declarationsOf_distinct made.declarations
  have unreserved := (Order.sort_ok distinct made.schedule).2.2
  have unreserved' : Record.reserved ∉ p.ids.map τ := by
    intro mem
    obtain ⟨id, inIds, same⟩ := List.mem_map.mp mem
    exact unreserved (relabels.eq_reserved_iff.mp same ▸ inIds)
  have injective := relabels.injective
  obtain ⟨links, linked, movedLinks⟩ := linksOf_rename ext made.links renames.dependencies
  obtain ⟨templates, given, movedTemplates⟩ :=
    templatesOf_rename ext kept unreserved unreserved' made.templates renames
  obtain ⟨rules, ruled, movedRules⟩ := rulesOf_rename ext made.rules renames.rules
  let p' : Parts :=
    { declarations := List.zipWith (Declaration.rename τ) (titlesOf (doc.get? "steps")) p.declarations
      links, templates, rules
      endpointDefaults := p.endpointDefaults
      schedule := p.schedule.map τ }
  have renamed : p.Renamed τ (titlesOf (doc.get? "steps")) p' := by
    refine ⟨titlesOf_length made.declarations, rfl, follows_of_reordered injective movedLinks,
      fun id => ?_, fun id => ?_, rfl, rfl⟩
    · rw [← movedTemplates.get?_eq, get?_map injective, Option.map_id, id_eq]
    · rw [lookup_eq_get?, lookup_eq_get?, ← movedRules.get?_eq, get?_map injective]
  have ids := renamed.ids_eq
  refine ⟨p', ?_, renamed⟩
  constructor
  case declarations =>
    rw [renames.steps]
    exact declarationsOf_rename ext (fun d mem => List.mem_map_of_mem mem) made.declarations
  case links => exact ids ▸ linked
  case templates => exact ids ▸ given
  case checked => exact renamed.checked made.checked
  case rules => exact ids ▸ ruled
  case endpointDefaults =>
    unfold endpointsOf
    rw [renames.endpointDefaults, renames.endpoints]
    exact made.endpointDefaults
  case schedule => exact ids ▸ Order.sort_relabel relabels renamed.links made.schedule

/-! ## Renaming the steps of a document -/

theorem zipWith_congr_right {α β γ : Type} {f g : α → β → γ} {xs : List α} {ys : List β}
    (h : ∀ y ∈ ys, ∀ x, f x y = g x y) : List.zipWith f xs ys = List.zipWith g xs ys := by
  induction xs generalizing ys with
  | nil => rfl
  | cons x xs ih =>
    cases ys with
    | nil => rfl
    | cons y ys =>
      obtain ⟨here, later⟩ := List.forall_mem_cons.mp h
      rw [List.zipWith_cons_cons, List.zipWith_cons_cons, here, ih later]

/-- How a flow is renamed depends on the new names of its steps alone. -/
theorem Sound.rename_congr {f : Flow} (sound : Sound doc f) (same : ∀ id ∈ f.order, σ id = τ id)
    (titles : List (Option String)) : f.rename σ titles = f.rename τ titles := by
  have declared {d : Step} (mem : d ∈ f.steps) : d.id ∈ f.order := List.mem_map_of_mem mem
  have steps : List.zipWith (Step.rename σ) titles f.steps =
      List.zipWith (Step.rename τ) titles f.steps := by
    refine zipWith_congr_right fun d mem title => ?_
    have prerequisites : d.prerequisites.map σ = d.prerequisites.map τ :=
      List.map_congr_left fun x link => same x ((sound.linked d mem).2 x link)
    have rules : d.rules.map (Rule.rename σ) = d.rules.map (Rule.rename τ) := by
      refine List.map_congr_left fun r inRules => ?_
      have reference : r.reference.rename σ = r.reference.rename τ := by
        cases source : r.reference with
        | field x name =>
          have known := (sound.referring d mem r inRules).source x name source
          exact congrArg (Reference.field · name) (same x known)
        | setting name => rfl
      simp only [Rule.rename, reference]
    simp only [Step.rename, same d.id (declared mem), prerequisites, rules]
  have schedule : f.schedule.map σ = f.schedule.map τ :=
    List.map_congr_left fun id mem => same id (sound.scheduled.1.mem_iff.mp mem)
  have alerts : f.alerts.map (Alert.rename σ) = f.alerts.map (Alert.rename τ) := by
    -- A warning is about a step and one that it reads from, so it names steps of the flow alone.
    refine List.map_congr_left fun a mem => ?_
    obtain ⟨d, inSteps, mem⟩ := List.mem_flatMap.mp mem
    obtain ⟨r, inRules, found⟩ := List.mem_filterMap.mp mem
    unfold alert? at found
    cases source : r.reference with
    | field x name =>
      rw [source] at found
      dsimp only at found
      split at found
      · cases found
      · cases found
        have known := (sound.referring d inSteps r inRules).source x name source
        simp only [Alert.rename, same d.id (declared inSteps), same x known]
    | setting name =>
      rw [source] at found
      cases found
  simp only [rename, steps, schedule, alerts]

theorem ofDocument_of_parts (made : p.From doc) : ofDocument (some (.mapping doc)) = .ok p.flow := by
  have checked := forM_ok_iff.mpr made.checked
  have sorted : (Order.sort p.ids p.links).mapError Fault.cycle = .ok p.schedule :=
    mapError_ok_iff.mpr made.schedule
  have links := made.links
  have templates := made.templates
  have rules := made.rules
  unfold Parts.ids at links templates rules sorted
  unfold ofDocument
  simp only [Option.bind_some, Value.entries?, made.declarations, ok_bind, links, templates, checked,
    rules, made.endpointDefaults, sorted]
  rfl

/-- Renaming the steps of a document renames the steps of its flow, unless a step gets the reserved
name: then the document has no flow. -/
theorem ofDocument_of_renames {f : Flow} {ρ : String → String}
    (compiled : ofDocument (some (.mapping doc)) = .ok f)
    (injective : ∀ a ∈ f.order, ∀ b ∈ f.order, ρ a = ρ b → a = b)
    (proper : ∀ id ∈ f.order, Text.allBlank (ρ id) = false ∧ '.' ∉ (ρ id).toList)
    (renames : Renames (f.naming ρ) doc doc') :
    f.warnings = f.alerts.map Alert.text ∧
      (Record.reserved ∉ f.order.map ρ → ofDocument (some (.mapping doc')) =
        .ok (f.rename (f.naming ρ) (titlesOf (doc.get? "steps")))) ∧
      (Record.reserved ∈ f.order.map ρ → ∀ g, ofDocument (some (.mapping doc')) ≠ .ok g) := by
  obtain ⟨_, p, found, made, rfl⟩ := parts_of_ofDocument compiled
  cases found
  have new (id : String) (mem : id ∈ p.ids) : p.flow.naming ρ id = ρ id := by
    rw [naming, p.order_flow, if_pos mem]
  have distinct : p.ids.Nodup := declarationsOf_distinct made.declarations
  have unreserved := (Order.sort_ok distinct made.schedule).2.2
  have kept : p.flow.naming ρ Record.reserved = Record.reserved := by
    rw [naming, p.order_flow, if_neg unreserved]
  rw [p.order_flow] at injective proper ⊢
  have among : ∀ a ∈ p.ids, ∀ b ∈ p.ids, p.flow.naming ρ a = p.flow.naming ρ b → a = b := by
    intro a inIds b inIds' same
    rw [new a inIds, new b inIds'] at same
    exact injective a inIds b inIds' same
  have extend {τ : String → String} (distinguishing : Function.Injective τ)
      (same : ∀ id ∈ p.ids, τ id = p.flow.naming ρ id) : Extends p.ids (p.flow.naming ρ) τ := by
    refine ⟨distinguishing, fun id mem => (same id mem).symm, fun id mem => ?_⟩
    rw [same id mem, new id mem]
    exact proper id mem
  refine ⟨made.warnings_eq, fun free => ?_, fun taken g compiled' => ?_⟩
  · have apart : ∀ id ∈ p.ids, p.flow.naming ρ id ≠ Record.reserved := by
      intro id mem same
      rw [new id mem] at same
      exact free (same ▸ List.mem_map_of_mem mem)
    -- The reserved name is no step, and the sections are read apart from it.
    have withReserved : ∀ a ∈ Record.reserved :: p.ids, ∀ b ∈ Record.reserved :: p.ids,
        p.flow.naming ρ a = p.flow.naming ρ b → a = b := by
      intro a memA b memB same
      rcases List.mem_cons.mp memA with rfl | memA <;> rcases List.mem_cons.mp memB with rfl | memB
      · rfl
      · exact absurd (same.symm.trans kept) (apart b memB)
      · exact absurd (same.trans kept) (apart a memA)
      · exact among a memA b memB same
    obtain ⟨τ, distinguishing, same⟩ := exists_injective_extension withReserved
    obtain ⟨fixed, same⟩ := List.forall_mem_cons.mp same
    obtain ⟨p', made', renamed⟩ := made.exists_renamed ⟨distinguishing, fixed.trans kept⟩
      (extend distinguishing same) kept renames
    rw [ofDocument_of_parts made', renamed.flow_eq distinguishing made made',
      made.sound.rename_congr fun id mem => (same id (p.order_flow ▸ mem)).symm]
  · -- The names that the renamed document declares are the new ones.
    obtain ⟨τ, distinguishing, same⟩ := exists_injective_extension among
    have ext := extend distinguishing same
    obtain ⟨_, q, found, made', rfl⟩ := parts_of_ofDocument compiled'
    cases found
    have declared := made'.declarations
    rw [renames.steps, declarationsOf_rename ext (fun d mem => List.mem_map_of_mem mem)
      made.declarations, Except.ok.injEq] at declared
    have each (title : Option String) (d : Declaration) : (d.rename τ title).id = τ d.id := rfl
    have ids : q.ids = p.ids.map ρ := by
      unfold Parts.ids
      rw [← declared, map_zipWith_of_length each (titlesOf_length made.declarations), List.map_map]
      refine List.map_congr_left fun d mem => ?_
      have mem := List.mem_map_of_mem (f := (·.id)) mem
      exact (same d.id mem).trans (new d.id mem)
    have distinct : q.ids.Nodup := declarationsOf_distinct made'.declarations
    exact (Order.sort_ok distinct made'.schedule).2.2 (ids ▸ taken)

/-- Two requests that read from a manual step, one of them without depending on it. The new names are
a number, which comes first in a section, and names that every record knows. -/
theorem renamed_to_known_names : ∃ (doc doc' : Record Value) (f : Flow) (ρ : String → String),
    ofDocument (some (.mapping doc)) = .ok f ∧ f.order = ["login", "list", "show"] ∧
      f.order.map ρ = ["toString", "constructor", "7"] ∧ f.alerts.length = 1 ∧
        Renames (f.naming ρ) doc doc' ∧ ofDocument (some (.mapping doc')) =
          .ok (f.rename (f.naming ρ) (titlesOf (doc.get? "steps"))) := by
  let ρ (id : String) : String :=
    if id = "login" then "toString" else if id = "list" then "constructor" else "7"
  let doc : Record Value :=
    [("steps", .list [.mapping [("id", .text "login"), ("manual", .bool true)],
        .mapping [("id", .text "list"), ("title", .text "list")], .mapping [("id", .text "show")]]),
      ("dependencies", .mapping [("list", .list [.text "login"])]),
      ("requests", .mapping [("list", .mapping [("url", .text "/list?key=<key>")]),
        ("show", .mapping [("url", .text "/show/<key>")])]),
      ("substitution_rules", .mapping [("list", .mapping [("<key>", .text "step.login.key")]),
        ("show", .mapping [("url", .mapping [("<key>", .text "step.login.key")])])])]
  let doc' : Record Value :=
    [("steps", .list [.mapping [("id", .text "toString"), ("manual", .bool true)],
        .mapping [("id", .text "constructor"), ("title", .text "list")],
        .mapping [("id", .text "7")]]),
      ("dependencies", .mapping [("constructor", .list [.text "toString"])]),
      ("requests", .mapping [("7", .mapping [("url", .text "/show/<key>")]),
        ("constructor", .mapping [("url", .text "/list?key=<key>")])]),
      ("substitution_rules",
        .mapping [("7", .mapping [("url", .mapping [("<key>", .text "step.toString.key")])]),
          ("constructor", .mapping [("<key>", .text "step.toString.key")])])]
  let f : Flow :=
    { steps :=
        [⟨"login", "login", "", [], [], [], none, []⟩,
          ⟨"list", "list", "", [], [], ["login"], some ⟨"GET", "/list?key=<key>", [], none, none⟩,
            [⟨"<key>", .field "login" "key", "step.login.key", none⟩]⟩,
          ⟨"show", "show", "", [], [], [], some ⟨"GET", "/show/<key>", [], none, none⟩,
            [⟨"<key>", .field "login" "key", "step.login.key", some .url⟩]⟩]
      endpointDefaults := [], schedule := ["login", "show", "list"]
      warnings := ["step 'show' substitutes <key> from 'login', which it does not depend on"] }
  have compiled : ofDocument (some (.mapping doc)) = .ok f := rfl
  have order : f.order = ["login", "list", "show"] := rfl
  have renames : Renames (f.naming ρ) doc doc' := by
    refine ⟨rfl, .same _, .same _, ?_, ?_, rfl, rfl⟩
    · exact .mapping (.swap (by decide) [])
    · exact .mapping (.swap (by decide) [])
  have result := ofDocument_of_renames compiled (by rw [order]; decide) (by rw [order]; decide)
    renames
  exact ⟨doc, doc', f, ρ, compiled, rfl, rfl, rfl, renames, result.2.1 (by rw [order]; decide)⟩

/-- A document with one step has a flow, and has none when the step gets the reserved name. -/
theorem lost_under_reserved_name : ∃ (doc doc' : Record Value) (f : Flow) (ρ : String → String),
    ofDocument (some (.mapping doc)) = .ok f ∧
      (∀ a ∈ f.order, ∀ b ∈ f.order, ρ a = ρ b → a = b) ∧
      (∀ id ∈ f.order, Text.allBlank (ρ id) = false ∧ '.' ∉ (ρ id).toList) ∧
      Renames (f.naming ρ) doc doc' ∧
      ofDocument (some (.mapping doc')) = .error (.cycle ["__proto__"]) := by
  have compiled : ofDocument (some (.mapping
      [("steps", .list [.mapping [("id", .text "login"), ("manual", .bool true)]])])) =
      .ok ⟨[⟨"login", "login", "", [], [], [], none, []⟩], [], ["login"], []⟩ := rfl
  refine ⟨_, [("steps", .list [.mapping [("id", .text "__proto__"), ("manual", .bool true)]])], _,
    fun _ => "__proto__", compiled, ?_, ?_,
    ⟨rfl, .same _, .same _, .same _, .same _, rfl, rfl⟩, rfl⟩
  · change ∀ a ∈ ["login"], ∀ b ∈ ["login"], _
    simp
  · change ∀ id ∈ ["login"], _
    decide

end

end

end Flow

end Walkthrough
