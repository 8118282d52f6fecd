import Walkthrough.Proofs.Graph
import Walkthrough.Proofs.Render
import Walkthrough.Proofs.Filling

/-!
# What a template comes to

`Session.Comes` says what the request template of a step comes to, or which fault is reported. The
endpoints are filled in first; then the rules get their values; then the tokens are replaced, part by
part. In each phase the first fault ends it. The rendered request is the one that the template comes
to, and the template comes to nothing else (`Session.comes_iff_renderRequest`).
-/

namespace Walkthrough

open Walkthrough.Checks

/-- The kind of a fault and the placeholder that it is about. -/
def RenderFault.brief (f : RenderFault) : String × String :=
  (f.kind, f.token)

namespace Session

open Template (Partwise Filled Lacks Rewritten Leaves parts)

variable {s : Session} {c : EndpointContext} {r : Rule} {v : String}

/-- The rule has a value: a variable that is set, or a field of a completed step. -/
inductive Supplies (s : Session) (c : EndpointContext) (r : Rule) : String → Prop
  | setting {name v : String} (reads : r.reference = .setting name)
      (set : c.vars.get? name = some v) : Supplies s c r v
  | field {step name : String} {result : StepResult} {v : Scalar}
      (reads : r.reference = .field step name) (found : s.result? step = some result)
      (done : result.status = .completed) (given : result.fields.get? name = some v) :
      Supplies s c r v.toText

/-- The rules with their values. -/
def Supplied (s : Session) (c : EndpointContext) : List Rule → List (Rule × String) → Prop :=
  List.Forall₂ fun r e => e.1 = r ∧ Supplies s c r e.2

theorem resolve_ok_iff : s.resolve c r = .ok v ↔ Supplies s c r v := by
  unfold resolve
  constructor
  · intro h
    split at h
    next name reads =>
      split at h
      next w set =>
        cases h
        exact .setting reads set
      next => cases h
    next step name reads =>
      split at h
      next => cases h
      next done =>
        simp only [Bool.not_eq_true', Bool.not_eq_false] at done
        obtain ⟨result, found, completed⟩ := isCompleted_iff.mp done
        split at h
        next w given =>
          cases h
          simp only [field?, found, completed, if_true] at given
          exact .field reads found completed given
        next => cases h
  · rintro (⟨reads, set⟩ | ⟨reads, found, done, given⟩)
    · simp [reads, set]
    · have completed := isCompleted_iff.mpr ⟨_, found, done⟩
      simp [reads, completed, field?, found, done, given]

theorem of_resolve_error {f : RenderFault} (h : s.resolve c r = .error f) :
    f.kind = "MissingUpstreamValue" ∧ f.token = r.token := by
  unfold resolve at h
  split at h
  · split at h
    · cases h
    · cases h
      exact ⟨rfl, rfl⟩
  · split at h
    · cases h
      exact ⟨rfl, rfl⟩
    · split at h
      · cases h
      · cases h
        exact ⟨rfl, rfl⟩

theorem resolve_eq_incompleteStep_iff {token x : String} :
    s.resolve c r = .error (.incompleteStep token x) ↔
      (∃ name, r.reference = .field x name) ∧ r.token = token ∧ s.isCompleted x = false := by
  unfold resolve
  constructor
  · intro h
    split at h
    · split at h <;> cases h
    next step name reads =>
      split at h
      next incomplete =>
        cases h
        exact ⟨⟨name, reads⟩, rfl, by simpa using incomplete⟩
      next => split at h <;> cases h
  · rintro ⟨⟨name, reads⟩, rfl, incomplete⟩
    simp [reads, incomplete]

/-- The values of the rules, or the fault of the first rule that has none. -/
def resolveAll (s : Session) (c : EndpointContext) (rules : List Rule) :
    Except RenderFault (List (Rule × String)) :=
  rules.mapM fun r => (s.resolve c r).map fun v => (r, v)

theorem resolveAll_ok_iff {rules : List Rule} {values : List (Rule × String)} :
    s.resolveAll c rules = .ok values ↔ Supplied s c rules values := by
  unfold resolveAll Supplied
  rw [mapM_ok_iff]
  refine iff_of_eq (congrArg (fun rel => List.Forall₂ rel rules values) ?_)
  funext r e
  refine propext ?_
  rw [map_ok_iff, ← resolve_ok_iff]
  constructor
  · rintro ⟨v, found, rfl⟩
    exact ⟨rfl, found⟩
  · rintro ⟨rfl, found⟩
    exact ⟨e.2, found, rfl⟩

theorem resolveAll_error_iff {rules : List Rule} {f : RenderFault} :
    s.resolveAll c rules = .error f ↔
      ∃ r, First (fun r => ∀ v, ¬Supplies s c r v) rules r ∧ s.resolve c r = .error f := by
  have unsupplied : ∀ r, (∃ f, fault? (s.resolve c r) = some f) ↔ ∀ v, ¬Supplies s c r v := by
    intro r
    simp only [← resolve_ok_iff, fault?_eq_some_iff]
    cases s.resolve c r <;> simp
  unfold resolveAll
  rw [← fault?_eq_some_iff, fault?_mapM]
  simp only [fault?_map]
  rw [findSome?_eq_some_iff_first]
  simp only [First.congr unsupplied]
  simp only [fault?_eq_some_iff]

/-- What the template of a step comes to: a request, or the kind of the fault with the placeholder
that it is about. -/
inductive Comes (s : Session) (c : EndpointContext) (template : Request) (rules : List Rule) :
    Except (String × String) Request → Prop
  | unresolved {part : Scope × String} {name : String}
      (first : First (fun part => ∃ name, Lacks c part.2 name) (parts template) part)
      (lacks : Lacks c part.2 name) : Comes s c template rules (.error ("UnresolvedEndpoint", name))
  | missing {filled : Request} {r : Rule} (fills : Partwise (fun _ => Filled c) template filled)
      (first : First (fun r => ∀ v, ¬Supplies s c r v) rules r) :
      Comes s c template rules (.error ("MissingUpstreamValue", r.token))
  | unbound {filled : Request} {values : List (Rule × String)} {part : Scope × String}
      {name : String} (fills : Partwise (fun _ => Filled c) template filled)
      (supplied : Supplied s c rules values)
      (first : First (fun part => ∃ name, Leaves values part.1 part.2 name) (parts filled) part)
      (leaves : Leaves values part.1 part.2 name) :
      Comes s c template rules (.error ("UnboundPlaceholder", "<" ++ name ++ ">"))
  | request {filled request : Request} {values : List (Rule × String)}
      (fills : Partwise (fun _ => Filled c) template filled)
      (supplied : Supplied s c rules values)
      (rewritten : Partwise (fun scope text out => (∀ name, ¬Leaves values scope text name) ∧
        Rewritten values scope text out) filled request) :
      Comes s c template rules (.ok request)

/-! ## The program's order -/

section
variable {template filled request : Request} {rules : List Rule} {values : List (Rule × String)}
  {f : RenderFault}

theorem fillAll_ok_iff : Template.traverse (fun _ => Template.fill c.endpoint?) template = .ok filled ↔
    Partwise (fun _ => Filled c) template filled := by
  rw [Template.traverse_ok_iff]
  simp only [Template.fill_ok_iff]

theorem fillAll_error_iff :
    Template.traverse (fun _ => Template.fill c.endpoint?) template = .error f ↔
      ∃ part name, First (fun part => ∃ name, Lacks c part.2 name) (parts template) part ∧
        Lacks c part.2 name ∧ f = .unresolvedEndpoint name :=
  Template.traverse_error_iff fun _ _ _ => Template.fill_error_iff

theorem substituteAll_ok_iff (tokens : ∀ e ∈ values, e.1.token ≠ "") :
    Template.traverse (Template.substitute values) filled = .ok request ↔
      Partwise (fun scope text out => (∀ name, ¬Leaves values scope text name) ∧
        Rewritten values scope text out) filled request := by
  rw [Template.traverse_ok_iff]
  simp only [Template.substitute_ok_iff tokens]

theorem substituteAll_error_iff (tokens : ∀ e ∈ values, e.1.token ≠ "") :
    Template.traverse (Template.substitute values) filled = .error f ↔
      ∃ part name, First (fun part => ∃ name, Leaves values part.1 part.2 name) (parts filled) part ∧
        Leaves values part.1 part.2 name ∧
          f = .unboundPlaceholder ("<" ++ name ++ ">") part.1 :=
  @Template.traverse_error_iff _ filled f (Leaves values)
    (fun scope name => .unboundPlaceholder ("<" ++ name ++ ">") scope)
    fun _ _ _ => Template.substitute_error_iff tokens

theorem tokens_of_supplied (supplied : Supplied s c rules values)
    (tokens : ∀ r ∈ rules, r.token ≠ "") : ∀ e ∈ values, e.1.token ≠ "" := by
  induction supplied with
  | nil => simp
  | cons first rest ih =>
    obtain ⟨own, others⟩ := List.forall_mem_cons.mp tokens
    rw [List.forall_mem_cons]
    exact ⟨first.1 ▸ own, ih others⟩

/-- The three phases of a rendering. -/
theorem render_eq (template : Request) (rules : List Rule) :
    Template.render c.endpoint? (s.resolve c) template rules =
      Template.traverse (fun _ => Template.fill c.endpoint?) template >>= fun filled =>
        s.resolveAll c rules >>= fun values =>
          Template.traverse (Template.substitute values) filled := rfl

theorem render_of_fill_error
    (fails : Template.traverse (fun _ => Template.fill c.endpoint?) template = .error f) :
    Template.render c.endpoint? (s.resolve c) template rules = .error f := by
  rw [render_eq, fails, error_bind]

theorem render_of_resolve_error
    (fills : Template.traverse (fun _ => Template.fill c.endpoint?) template = .ok filled)
    (fails : s.resolveAll c rules = .error f) :
    Template.render c.endpoint? (s.resolve c) template rules = .error f := by
  rw [render_eq, fills, ok_bind, fails, error_bind]

theorem render_of_resolve
    (fills : Template.traverse (fun _ => Template.fill c.endpoint?) template = .ok filled)
    (resolves : s.resolveAll c rules = .ok values) :
    Template.render c.endpoint? (s.resolve c) template rules =
      Template.traverse (Template.substitute values) filled := by
  rw [render_eq, fills, ok_bind, resolves, ok_bind]

theorem comes_render (tokens : ∀ r ∈ rules, r.token ≠ "") : Comes s c template rules
    ((Template.render c.endpoint? (s.resolve c) template rules).mapError RenderFault.brief) := by
  -- One case for each phase that can end the rendering, and one for the request.
  cases filling : Template.traverse (fun _ => Template.fill c.endpoint?) template with
  | error f =>
    rw [render_of_fill_error filling]
    obtain ⟨part, name, first, lacks, rfl⟩ := fillAll_error_iff.mp filling
    exact .unresolved first lacks
  | ok filled =>
    have fills := fillAll_ok_iff.mp filling
    cases resolving : s.resolveAll c rules with
    | error f =>
      rw [render_of_resolve_error filling resolving]
      obtain ⟨r, first, fault⟩ := resolveAll_error_iff.mp resolving
      obtain ⟨kind, token⟩ := of_resolve_error fault
      have comes := Comes.missing fills first
      rw [← kind, ← token] at comes
      exact comes
    | ok values =>
      have supplied := resolveAll_ok_iff.mp resolving
      have named := tokens_of_supplied supplied tokens
      rw [render_of_resolve filling resolving]
      cases substituting : Template.traverse (Template.substitute values) filled with
      | error f =>
        obtain ⟨part, name, first, leaves, rfl⟩ := (substituteAll_error_iff named).mp substituting
        exact .unbound fills supplied first leaves
      | ok request =>
        exact .request fills supplied ((substituteAll_ok_iff named).mp substituting)

theorem Comes.eq_render {e : Except (String × String) Request} (h : Comes s c template rules e)
    (tokens : ∀ r ∈ rules, r.token ≠ "") :
    e = (Template.render c.endpoint? (s.resolve c) template rules).mapError RenderFault.brief := by
  cases h with
  | unresolved first lacks =>
    rw [render_of_fill_error (fillAll_error_iff.mpr ⟨_, _, first, lacks, rfl⟩)]
    rfl
  | @missing filled r fills first =>
    cases resolving : s.resolve c r with
    | ok v => exact absurd (resolve_ok_iff.mp resolving) (first.holds v)
    | error f =>
      have fails := resolveAll_error_iff.mpr ⟨r, first, resolving⟩
      obtain ⟨kind, token⟩ := of_resolve_error resolving
      rw [render_of_resolve_error (fillAll_ok_iff.mpr fills) fails, ← kind, ← token]
      rfl
  | unbound fills supplied first leaves =>
    have fails := (substituteAll_error_iff (tokens_of_supplied supplied tokens)).mpr
      ⟨_, _, first, leaves, rfl⟩
    rw [render_of_resolve (fillAll_ok_iff.mpr fills) (resolveAll_ok_iff.mpr supplied), fails]
    rfl
  | request fills supplied rewritten =>
    have substitutes :=
      (substituteAll_ok_iff (tokens_of_supplied supplied tokens)).mpr rewritten
    rw [render_of_resolve (fillAll_ok_iff.mpr fills) (resolveAll_ok_iff.mpr supplied), substitutes]
    rfl

end

theorem token_ne_empty {doc : Option Value} {f : Flow} (compiled : Flow.ofDocument doc = .ok f)
    {id : String} {d : Step} (found : f.step? id = some d) : ∀ r ∈ d.rules, r.token ≠ "" := by
  obtain ⟨sections, p, _, made, rfl⟩ := Flow.parts_of_ofDocument compiled
  obtain ⟨e, _, rfl⟩ := List.mem_map.mp (Flow.mem_steps_of_step? found)
  intro r mem
  exact (made.rule_sound mem).token

/-- An automatic step of a flow that a document gives is always rendered, with the results of any
session and in any endpoint context: to what its template comes to, and the template comes to
nothing else. -/
theorem comes_iff_renderRequest {doc : Option Value} {f : Flow} {id : String} {d : Step}
    {template : Request} (compiled : Flow.ofDocument doc = .ok f) (found : f.step? id = some d)
    (automatic : d.template = some template) (s : Session) (c : EndpointContext) :
    ∃ outcome, s.renderRequest f c id = .ok outcome ∧
      ∀ e, Comes s c template d.rules e ↔ e = outcome.mapError RenderFault.brief := by
  refine ⟨Template.render c.endpoint? (s.resolve c) template d.rules, ?_, fun e => ?_⟩
  · simp only [renderRequest, found, automatic]
  · have tokens := token_ne_empty compiled found
    constructor
    · intro comes
      exact comes.eq_render tokens
    · rintro rfl
      exact comes_render tokens

/-- Tokens that begin alike, a token for one part alone, and values that look like tokens. -/
theorem comes_of_overlapping_tokens : ∃ (doc : Value) (f : Flow) (d : Step) (template : Request)
    (s : Session) (c : EndpointContext), Flow.ofDocument (some doc) = .ok f ∧
      f.step? "list" = some d ∧ d.template = some template ∧
      template.url = "\x7bserver\x7d/<key><k>?<keys>" ∧
      d.rules.map (·.token) = ["<key>", "<key", "<k>"] ∧
      ∀ e, Comes s c template d.rules e ↔
        e = .ok ⟨"GET", "https://h/<key><w>?<w>s>", [], none, none⟩ := by
  let list : Step :=
    ⟨"list", "list", "", [], [], ["login"],
      some ⟨"GET", "\x7bserver\x7d/<key><k>?<keys>", [], none, none⟩,
      [⟨"<key>", .field "login" "key", "step.login.key", none⟩,
        ⟨"<key", .setting "v", "var.v", none⟩, ⟨"<k>", .setting "v", "var.v", some .url⟩]⟩
  let f : Flow :=
    { steps := [⟨"login", "login", "", [], [], [], none, []⟩, list]
      endpointDefaults := [], schedule := ["login", "list"], warnings := [] }
  let s : Session :=
    { flow := f
      results := [("login",
        { status := .completed, origin := .manual, fields := [("key", .text "<key>")] })] }
  let c : EndpointContext :=
    { discovered := [("server", "https://h")], defaults := [], baseUrl := none
      vars := [("v", "<w>")] }
  have compiled : Flow.ofDocument (some (.mapping
      [("steps", .list [.mapping [("id", .text "login"), ("manual", .bool true)],
          .mapping [("id", .text "list")]]),
        ("dependencies", .mapping [("list", .list [.text "login"])]),
        ("requests", .mapping
          [("list", .mapping [("url", .text "\x7bserver\x7d/<key><k>?<keys>")])]),
        ("substitution_rules", .mapping [("list", .mapping
          [("<key>", .text "step.login.key"), ("<key", .text "var.v"),
            ("url", .mapping [("<k>", .text "var.v")])])])])) = .ok f := rfl
  have rendered : s.renderRequest f c "list" =
      .ok (.ok ⟨"GET", "https://h/<key><w>?<w>s>", [], none, none⟩) := rfl
  have found : f.step? "list" = some list := rfl
  have automatic : list.template =
      some ⟨"GET", "\x7bserver\x7d/<key><k>?<keys>", [], none, none⟩ := rfl
  obtain ⟨outcome, same, comes⟩ := comes_iff_renderRequest compiled found automatic s c
  rw [rendered] at same
  cases same
  exact ⟨_, f, list, _, s, c, compiled, found, automatic, rfl, rfl, comes⟩

end Session

end Walkthrough
