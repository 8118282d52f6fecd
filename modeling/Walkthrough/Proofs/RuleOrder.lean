import Walkthrough.Proofs.Renaming
import Walkthrough.Proofs.Verbatim
import Mathlib.Data.List.Perm.Basic

/-!
# Rules in another order

The rules of a step are written in a mapping, those for one part of the request in a mapping inside of
it. A document in which the entries of these mappings stand in another order (`Flow.RearrangesRules`)
describes the same flow, up to the order of the rules. For a token that several rules have the last of
those that cover a part has the word (`Template.LastWord`), so a step is rendered alike when these
rules read the same before and after (`Flow.render_of_rearranged`).
-/

namespace Walkthrough

open Checks

/-! ## Rules that have the last word -/

namespace Template

variable {rules rules' : List Rule} {scope : Scope} {t : List Char} {r : Rule}

/-- Of the rules that cover the part and have the token, this is the last one. -/
def LastWord (rules : List Rule) (scope : Scope) (t : List Char) (r : Rule) : Prop :=
  ∃ before after, rules = before ++ r :: after ∧ r.Covers scope ∧ unitsOf r.token = t ∧
    ∀ x ∈ after, x.Covers scope → unitsOf x.token ≠ t

/-- Rules that have the last word on the same token of a part read the same. -/
def Agree (rules rules' : List Rule) : Prop :=
  ∀ scope t r r', LastWord rules scope t r → LastWord rules' scope t r' →
    r.reference = r'.reference

theorem LastWord.mem (last : LastWord rules scope t r) :
    r ∈ rules ∧ r.Covers scope ∧ unitsOf r.token = t := by
  obtain ⟨before, after, rfl, covers, token, _⟩ := last
  exact ⟨by simp, covers, token⟩

/-- It does not matter which rule comes last when all rules for a token read the same. -/
theorem agree_of_perm (perm : rules.Perm rules')
    (same : ∀ scope, ∀ r ∈ rules, ∀ r' ∈ rules, r.Covers scope → r'.Covers scope →
      unitsOf r.token = unitsOf r'.token → r.reference = r'.reference) : Agree rules rules' := by
  intro scope t r r' last last'
  obtain ⟨mem, covers, token⟩ := last.mem
  obtain ⟨mem', covers', token'⟩ := last'.mem
  exact same scope r mem r' (perm.mem_iff.mpr mem') covers covers' (token.trans token'.symm)

theorem Agree.symm (agree : Agree rules rules') : Agree rules' rules :=
  fun scope t r r' last last' => (agree scope t r' r last' last).symm

theorem inUse_of_perm (perm : rules.Perm rules') : InUse rules scope t ↔ InUse rules' scope t := by
  simp only [InUse, perm.mem_iff]

end Template

namespace Session

open Template (Binds LastWord Agree Leaves Rewritten unitsOf)

variable {rules rules' : List Rule} {values values' : List (Rule × String)} {scope : Scope}
  {t v : List Char} {r r' : Rule} {s : Session} {c : EndpointContext} {a b : String}
  {template request : Request}

theorem Supplies.single (first : Supplies s c r a) (second : Supplies s c r b) : a = b := by
  rw [← resolve_ok_iff] at first second
  rw [first] at second
  cases second
  rfl

/-- What a rule is supplied with depends on what it reads. -/
theorem Supplies.of_reference (supplies : Supplies s c r a) (same : r.reference = r'.reference) :
    Supplies s c r' a := by
  cases supplies with
  | setting reads set => exact .setting (same ▸ reads) set
  | field reads found done given => exact .field (same ▸ reads) found done given

theorem Supplied.supplies (supplied : Supplied s c rules values) :
    ∀ e ∈ values, Supplies s c e.1 e.2 := by
  induction supplied with
  | nil => simp
  | cons first _ ih =>
    rw [List.forall_mem_cons]
    exact ⟨first.1 ▸ first.2, ih⟩

/-- A token is bound to what the rule is supplied with that has the last word on it. -/
theorem binds_iff_lastWord (supplied : Supplied s c rules values) : Binds scope values t v ↔
    ∃ r w, LastWord rules scope t r ∧ Supplies s c r w ∧ unitsOf w = v := by
  have each := supplied.supplies
  rw [← supplied.map_eq]
  constructor
  · rintro ⟨before, e, after, rfl, covers, token, value, last⟩
    refine ⟨e.1, e.2, ⟨before.map (·.1), after.map (·.1), by simp, covers, token, ?_⟩,
      each e (by simp), value⟩
    simpa using last
  · rintro ⟨r, w, ⟨before, after, same, covers, token, last⟩, supplies, value⟩
    obtain ⟨front, others, rfl, rfl, rest⟩ := List.map_eq_append_iff.mp same
    obtain ⟨e, back, rfl, rfl, rfl⟩ := List.map_eq_cons_iff.mp rest
    cases (each e (by simp)).single supplies
    refine ⟨front, e, back, rfl, covers, token, value, ?_⟩
    simpa using last

theorem binds_of_agree (perm : rules.Perm rules') (agree : Agree rules rules')
    (supplied : Supplied s c rules values) (supplied' : Supplied s c rules' values')
    (bound : Binds scope values t v) : Binds scope values' t v := by
  have used := Template.exists_binds_iff.mp ⟨v, bound⟩
  rw [supplied.map_eq, Template.inUse_of_perm perm, ← supplied'.map_eq] at used
  obtain ⟨v', bound'⟩ := Template.exists_binds_iff.mpr used
  obtain ⟨r, w, last, supplies, rfl⟩ := (binds_iff_lastWord supplied).mp bound
  obtain ⟨r', w', last', supplies', rfl⟩ := (binds_iff_lastWord supplied').mp bound'
  cases (supplies.of_reference (agree scope t r r' last last')).single supplies'
  exact bound'

/-- The same rules in another order bind the same tokens to the same values. -/
theorem exists_supplied_of_perm (perm : rules.Perm rules') (agree : Agree rules rules')
    (supplied : Supplied s c rules values) : ∃ values', Supplied s c rules' values' ∧
      ∀ scope, Binds scope values = Binds scope values' := by
  obtain ⟨values', supplied'⟩ : ∃ values', Supplied s c rules' values' := by
    rw [exists_supplied_iff]
    intro r mem
    exact exists_supplied_iff.mp ⟨values, supplied⟩ r (perm.mem_iff.mpr mem)
  refine ⟨values', supplied', fun scope => ?_⟩
  funext t v
  exact propext ⟨binds_of_agree perm agree supplied supplied',
    binds_of_agree perm.symm agree.symm supplied' supplied⟩

/-- A template is rendered alike with the same rules in another order. -/
theorem render_of_perm (tokens : ∀ r ∈ rules, r.token ≠ "") (perm : rules.Perm rules')
    (agree : Agree rules rules')
    (rendered : Template.render c.endpoint? (s.resolve c) template rules = .ok request) :
    Template.render c.endpoint? (s.resolve c) template rules' = .ok request := by
  have tokens' : ∀ r ∈ rules', r.token ≠ "" := fun r mem => tokens r (perm.mem_iff.mpr mem)
  obtain ⟨values, supplied, changed⟩ := (render_ok_iff tokens).mp rendered
  obtain ⟨values', supplied', same⟩ := exists_supplied_of_perm perm agree supplied
  refine (render_ok_iff tokens').mpr ⟨values', supplied', ?_⟩
  simpa only [Leaves, Rewritten, same] using changed

end Session

/-! ## Documents -/

namespace Flow

variable {ε α β : Type} {what : String} {ids : List String} {doc doc' : Record Value} {f : Flow}

/-- The two values are the same, or mappings with the same names whose values may differ as the
relation allows and whose entries may stand in another order. -/
inductive Rearranged (rel : Value → Value → Prop) : Value → Value → Prop
  | same (v : Value) : Rearranged rel v v
  | mapping {a mid b : Record Value}
      (entries : List.Forall₂ (fun e k => k.1 = e.1 ∧ rel e.2 k.2) a mid) (moved : mid.Perm b) :
      Rearranged rel (.mapping a) (.mapping b)

/-- The second document is the first one with the rules of its steps in another order: the entries of
the mapping of a step, and those of the mappings in it for the parts of the request. -/
structure RearrangesRules (doc doc' : Record Value) : Prop where
  others : ∀ name, name ≠ "substitution_rules" → doc'.get? name = doc.get? name
  rules : doc'.get? "substitution_rules" = doc.get? "substitution_rules" ∨
    ∃ a b, doc.get? "substitution_rules" = some (.mapping a) ∧
      doc'.get? "substitution_rules" = some (.mapping b) ∧
        List.Forall₂ (fun e k => k.1 = e.1 ∧ Rearranged (Rearranged Eq) e.2 k.2) a b

theorem exists_mapM_of_forall₂ {f : α → Except ε β} {rel : α → α → Prop} {R : β → β → Prop}
    {a b : List α} {out : List β}
    (each : ∀ e k x, rel e k → f e = .ok x → ∃ y, f k = .ok y ∧ R x y)
    (entries : List.Forall₂ rel a b) (made : a.mapM f = .ok out) :
    ∃ out', b.mapM f = .ok out' ∧ List.Forall₂ R out out' := by
  simp only [mapM_ok_iff] at made ⊢
  induction entries generalizing out with
  | nil =>
    cases made
    exact ⟨[], .nil, .nil⟩
  | cons first _ ih =>
    obtain ⟨x, rest, read, others, rfl⟩ := List.forall₂_cons_left_iff.mp made
    obtain ⟨y, read', related⟩ := each _ _ _ first read
    obtain ⟨rest', others', relatedToo⟩ := ih others
    exact ⟨y :: rest', .cons read' others', .cons related relatedToo⟩

theorem exists_mapM_of_perm {f : α → Except ε β} {a b : List α} {out : List β} (moved : a.Perm b)
    (made : a.mapM f = .ok out) : ∃ out', b.mapM f = .ok out' ∧ out.Perm out' := by
  simp only [mapM_ok_iff] at made ⊢
  obtain ⟨out', made', perm⟩ := List.perm_comp_forall₂ moved.symm made
  exact ⟨out', made', perm.symm⟩

/-- The rules for one part of the request, or the one of a token. -/
theorem rulesOfEntry_rearranged {step : String} {e k : String × Value} {rules : List Rule}
    (same : k.1 = e.1) (rearranged : Rearranged Eq e.2 k.2)
    (made : rulesOfEntry ids step e = .ok rules) :
    ∃ rules', rulesOfEntry ids step k = .ok rules' ∧ rules.Perm rules' := by
  obtain ⟨name, v⟩ := e
  obtain ⟨other, w⟩ := k
  cases same
  cases rearranged with
  | same => exact ⟨rules, made, .refl _⟩
  | @mapping a mid b entries moved =>
    have alike : List.Forall₂ Eq a mid := entries.imp fun _ _ both => Prod.ext both.1.symm both.2
    rw [List.forall₂_eq_eq_eq] at alike
    subst alike
    unfold rulesOfEntry at made
    split at made
    next scope listed limited mapping =>
      cases mapping
      obtain ⟨rules', made', perm⟩ := exists_mapM_of_perm moved made
      refine ⟨rules', ?_, perm⟩
      simp only at limited
      simp only [rulesOfEntry, limited, made']
    next =>
      -- A token by itself has a text, and so no entries.
      obtain ⟨r, single, _⟩ := map_ok_iff.mp made
      obtain ⟨_, written, _⟩ := ruleOf_ok_iff.mp single
      cases written

theorem Rearranged.entriesOf {rel : Value → Value → Prop} {v w : Value}
    (rearranged : Rearranged rel v w) (same : ∀ v, rel v v) {entries : Record Value}
    (listed : Flow.entriesOf what (some v) = .ok entries) :
    ∃ mid entries', Flow.entriesOf what (some w) = .ok entries' ∧
      List.Forall₂ (fun e k => k.1 = e.1 ∧ rel e.2 k.2) entries mid ∧ mid.Perm entries' := by
  cases rearranged with
  | same => exact ⟨_, _, listed, List.forall₂_same.mpr fun e _ => ⟨rfl, same e.2⟩, .refl _⟩
  | mapping each moved =>
    cases listed
    exact ⟨_, _, rfl, each, moved⟩

theorem rulesOfStep_rearranged {e k : String × Value} {x : String × List Rule}
    (same : k.1 = e.1) (rearranged : Rearranged (Rearranged Eq) e.2 k.2)
    (made : rulesOfStep ids e = .ok x) :
    ∃ y, rulesOfStep ids k = .ok y ∧ y.1 = x.1 ∧ x.2.Perm y.2 := by
  obtain ⟨_, declared, made⟩ := bind_ok_iff.mp made
  obtain ⟨entries, listed, made⟩ := bind_ok_iff.mp made
  obtain ⟨rules, read, made⟩ := bind_ok_iff.mp made
  cases made
  obtain ⟨mid, entries', listed', each, moved⟩ := rearranged.entriesOf .same listed
  obtain ⟨between, read', perms⟩ := exists_mapM_of_forall₂ (R := List.Perm)
    (fun e k _ both => rulesOfEntry_rearranged both.1 both.2) each read
  obtain ⟨rules', read'', perm⟩ := exists_mapM_of_perm moved read'
  refine ⟨(e.1, rules'.flatten), ?_, rfl, (List.Perm.flatten_congr perms).trans perm.flatten⟩
  rw [← same] at declared listed' read'' ⊢
  refine bind_ok_iff.mpr ⟨_, declared, bind_ok_iff.mpr ⟨_, listed', ?_⟩⟩
  exact bind_ok_iff.mpr ⟨_, read'', rfl⟩

theorem rulesOf_rearranged {rules : List (String × List Rule)} (rearranged : RearrangesRules doc doc')
    (made : rulesOf ids (doc.get? "substitution_rules") = .ok rules) :
    ∃ rules', rulesOf ids (doc'.get? "substitution_rules") = .ok rules' ∧
      List.Forall₂ (fun x y => y.1 = x.1 ∧ x.2.Perm y.2) rules rules' := by
  rcases rearranged.rules with same | ⟨a, b, found, found', entries⟩
  · rw [same]
    exact ⟨rules, made, List.forall₂_same.mpr fun x _ => ⟨rfl, .refl _⟩⟩
  · rw [found] at made
    obtain ⟨_, listed, made⟩ := bind_ok_iff.mp made
    cases listed
    obtain ⟨rules', made', each⟩ := exists_mapM_of_forall₂
      (fun e k _ both => rulesOfStep_rearranged both.1 both.2) entries made
    rw [found']
    exact ⟨rules', bind_ok_iff.mpr ⟨_, rfl, made'⟩, each⟩

/-- The rules that are looked up for a step are the same in another order. -/
theorem lookup_perm {rules rules' : List (String × List Rule)}
    (each : List.Forall₂ (fun x y => y.1 = x.1 ∧ x.2.Perm y.2) rules rules') (id : String) :
    ((rules.lookup id).getD []).Perm ((rules'.lookup id).getD []) := by
  induction each with
  | nil => exact .refl _
  | @cons x y rules rules' first _ ih =>
    obtain ⟨name, own⟩ := x
    obtain ⟨other, moved⟩ := y
    obtain ⟨same, perm⟩ := first
    cases same
    rw [List.lookup_cons, List.lookup_cons]
    split
    · exact perm
    · exact ih

theorem Parts.step?_flow (p : Parts) (id : String) : p.flow.step? id =
    (p.declarations.find? (·.id == id)).map (stepOf p.links p.templates p.rules) := by
  rw [step?, flow, steps, List.find?_map]
  rfl

/-- A document with other rules has the same flow with these rules, or the fault of the rules. -/
theorem Parts.From.ofDocument_rules {p : Parts} (made : p.From doc)
    (others : ∀ name, name ≠ "substitution_rules" → doc'.get? name = doc.get? name) :
    ofDocument (some (.mapping doc')) = (rulesOf p.ids (doc'.get? "substitution_rules")).map
      fun rules => ({ p with rules := rules } : Parts).flow := by
  have declarations : declarationsOf (doc'.get? "steps") = .ok p.declarations := by
    rw [others _ (by decide)]
    exact made.declarations
  have links : linksOf p.ids (doc'.get? "dependencies") = .ok p.links := by
    rw [others _ (by decide)]
    exact made.links
  have templates : templatesOf p.ids doc' = .ok p.templates := by
    unfold templatesOf
    rw [others _ (by decide), others _ (by decide)]
    exact made.templates
  cases read : rulesOf p.ids (doc'.get? "substitution_rules") with
  | error fault =>
    have checked := forM_ok_iff.mpr made.checked
    unfold Parts.ids at links templates read
    unfold ofDocument
    simp only [Option.bind_some, Value.entries?, declarations, ok_bind, links, templates, checked,
      read]
    rfl
  | ok rules =>
    have endpointDefaults : endpointsOf doc' = .ok p.endpointDefaults := by
      unfold endpointsOf
      rw [others _ (by decide), others _ (by decide)]
      exact made.endpointDefaults
    exact ofDocument_of_parts
      ⟨declarations, links, templates, made.checked, read, endpointDefaults, made.schedule⟩

/-- The same flow with the rules of its steps in another order. -/
theorem exists_flow_of_rearranged (compiled : ofDocument (some (.mapping doc)) = .ok f)
    (rearranged : RearrangesRules doc doc') : ∃ f', ofDocument (some (.mapping doc')) = .ok f' ∧
      f'.endpointDefaults = f.endpointDefaults ∧ f'.order = f.order ∧
        ∀ id d, f.step? id = some d → ∃ rules', d.rules.Perm rules' ∧
          f'.step? id = some { d with rules := rules' } := by
  obtain ⟨_, p, found, made, rfl⟩ := parts_of_ofDocument compiled
  cases found
  obtain ⟨rules', read, each⟩ := rulesOf_rearranged rearranged made.rules
  let p' : Parts := { p with rules := rules' }
  have compiled' : ofDocument (some (.mapping doc')) = .ok p'.flow := by
    rw [made.ofDocument_rules rearranged.others, read]
    rfl
  refine ⟨p'.flow, compiled', rfl, ?_, ?_⟩
  · rw [Parts.order_flow, Parts.order_flow]
    rfl
  intro id d found
  rw [Parts.step?_flow] at found ⊢
  obtain ⟨e, first, rfl⟩ := Option.map_eq_some_iff.mp found
  refine ⟨_, lookup_perm each e.id, ?_⟩
  rw [show p'.declarations = p.declarations from rfl, first]
  rfl

/-- A document with the rules of its steps in another order has a flow too, and each step is rendered
there as it was: with the same results, for the same requests, provided that the rules which have the
last word on its tokens read the same before and after. -/
theorem render_of_rearranged (compiled : ofDocument (some (.mapping doc)) = .ok f)
    (rearranged : RearrangesRules doc doc') : ∃ f', ofDocument (some (.mapping doc')) = .ok f' ∧
      f'.endpointDefaults = f.endpointDefaults ∧ f'.order = f.order ∧
        ∀ id d d', f.step? id = some d → f'.step? id = some d' → Template.Agree d.rules d'.rules →
          ∀ s c request, Session.renderRequest f s c id = .ok (.ok request) ↔
            Session.renderRequest f' s c id = .ok (.ok request) := by
  obtain ⟨f', compiled', defaults, order, steps⟩ := exists_flow_of_rearranged compiled rearranged
  refine ⟨f', compiled', defaults, order, ?_⟩
  intro id d d' found found' agree s c request
  obtain ⟨rules', perm, moved⟩ := steps id d found
  rw [moved] at found'
  cases found'
  have tokens := Session.token_ne_empty compiled found
  have tokens' := Session.token_ne_empty compiled' moved
  simp only [Session.renderRequest, found, moved]
  cases d.template with
  | none => simp
  | some template =>
    simp only [Except.ok.injEq]
    exact ⟨Session.render_of_perm tokens perm agree,
      Session.render_of_perm tokens' perm.symm agree.symm⟩

/-! ## Tokens with two rules -/

section
variable {a b : Record Value}

/-- A document with one step that has these rules. -/
def rulesDocument (rules : Record Value) : Record Value :=
  [("steps", .list [.mapping [("id", .text "list")]]),
    ("requests", .mapping [("list", .mapping [("url", .text "/<k>/<kk>")])]),
    ("substitution_rules", .mapping [("list", .mapping rules)])]

def rulesStep (rules : List Rule) : Step :=
  ⟨"list", "list", "", [], [], [], some ⟨"GET", "/<k>/<kk>", [], none, none⟩, rules⟩

def rulesFlow (rules : List Rule) : Flow :=
  { steps := [rulesStep rules], endpointDefaults := [], schedule := ["list"], warnings := [] }

theorem rearranges_rulesDocument
    (rearranged : Rearranged (Rearranged Eq) (.mapping a) (.mapping b)) :
    RearrangesRules (rulesDocument a) (rulesDocument b) where
  others := by
    intro name other
    have apart : ("substitution_rules" == name) = false := beq_eq_false_iff_ne.mpr other.symm
    simp only [rulesDocument, Record.get?, List.find?_cons, apart]
  rules := Or.inr ⟨_, _, rfl, rfl, .cons ⟨rfl, rearranged⟩ .nil⟩

/-- Entries of both mappings change places. A token that has a rule for all parts and one for the URL
reads the same in both. -/
theorem render_of_swapped_rules : ∃ (doc doc' : Record Value) (f f' : Flow) (d d' : Step),
    ofDocument (some (.mapping doc)) = .ok f ∧ RearrangesRules doc doc' ∧
      ofDocument (some (.mapping doc')) = .ok f' ∧ f.step? "list" = some d ∧
      f'.step? "list" = some d' ∧ Template.Agree d.rules d'.rules ∧
      d.rules.map (·.token) = ["<k>", "<kk>", "<k>", "<j>"] ∧
      d'.rules.map (·.token) = ["<j>", "<k>", "<kk>", "<k>"] ∧
      ∀ s c request, Session.renderRequest f s c "list" = .ok (.ok request) ↔
        Session.renderRequest f' s c "list" = .ok (.ok request) := by
  let all : Rule := ⟨"<k>", .setting "a", "var.a", none⟩
  let long : Rule := ⟨"<kk>", .setting "b", "var.b", none⟩
  let own : Rule := ⟨"<k>", .setting "a", "var.a", some .url⟩
  let other : Rule := ⟨"<j>", .setting "b", "var.b", some .url⟩
  let rules : Record Value := [("<k>", .text "var.a"), ("<kk>", .text "var.b"),
    ("url", .mapping [("<k>", .text "var.a"), ("<j>", .text "var.b")])]
  let rules' : Record Value := [("url", .mapping [("<j>", .text "var.b"), ("<k>", .text "var.a")]),
    ("<kk>", .text "var.b"), ("<k>", .text "var.a")]
  have compiled : ofDocument (some (.mapping (rulesDocument rules))) =
      .ok (rulesFlow [all, long, own, other]) := rfl
  have compiled' : ofDocument (some (.mapping (rulesDocument rules'))) =
      .ok (rulesFlow [other, own, long, all]) := rfl
  have rearranged : RearrangesRules (rulesDocument rules) (rulesDocument rules') := by
    refine rearranges_rulesDocument (.mapping ?_ (List.reverse_perm rules'))
    refine .cons ⟨rfl, .same _⟩ (.cons ⟨rfl, .same _⟩ (.cons ⟨rfl, ?_⟩ .nil))
    exact .mapping (List.forall₂_same.mpr fun _ _ => ⟨rfl, rfl⟩) (.swap _ _ [])
  have perm : [all, long, own, other].Perm [other, own, long, all] := (List.reverse_perm _).symm
  have agree : Template.Agree [all, long, own, other] [other, own, long, all] := by
    have same : ∀ r ∈ [all, long, own, other], ∀ r' ∈ [all, long, own, other],
        Template.unitsOf r.token = Template.unitsOf r'.token → r.reference = r'.reference := by
      decide +kernel
    exact Template.agree_of_perm perm fun _ r mem r' mem' _ _ => same r mem r' mem'
  obtain ⟨f', again, _, _, alike⟩ := render_of_rearranged compiled rearranged
  rw [compiled'] at again
  cases again
  exact ⟨_, _, _, _, _, _, compiled, rearranged, compiled', rfl, rfl, agree, rfl, rfl,
    alike "list" _ _ rfl rfl agree⟩

/-- A token with a rule for all parts and another one for the URL has the value of the one that is
written last. -/
theorem last_rule_wins : ∃ (doc doc' : Record Value) (f f' : Flow) (request request' : Request)
    (s : Session) (c : EndpointContext), ofDocument (some (.mapping doc)) = .ok f ∧
      RearrangesRules doc doc' ∧ ofDocument (some (.mapping doc')) = .ok f' ∧
      Session.renderRequest f s c "list" = .ok (.ok request) ∧
      Session.renderRequest f' s c "list" = .ok (.ok request') ∧
      request.url = "/b/b" ∧ request'.url = "/a/b" := by
  let all : Rule := ⟨"<k>", .setting "a", "var.a", none⟩
  let own : Rule := ⟨"<k>", .setting "b", "var.b", some .url⟩
  let long : Rule := ⟨"<kk>", .setting "b", "var.b", none⟩
  let c : EndpointContext :=
    { discovered := [], defaults := [], baseUrl := none, vars := [("a", "a"), ("b", "b")] }
  let forUrl : Value := .mapping [("<k>", .text "var.b")]
  let rules : Record Value :=
    [("<kk>", .text "var.b"), ("<k>", .text "var.a"), ("url", forUrl)]
  let rules' : Record Value :=
    [("<kk>", .text "var.b"), ("url", forUrl), ("<k>", .text "var.a")]
  have compiled : ofDocument (some (.mapping (rulesDocument rules))) =
      .ok (rulesFlow [long, all, own]) := rfl
  have compiled' : ofDocument (some (.mapping (rulesDocument rules'))) =
      .ok (rulesFlow [long, own, all]) := rfl
  have rearranged : RearrangesRules (rulesDocument rules) (rulesDocument rules') := by
    have moved : rules.Perm rules' := .cons _ (.swap _ _ [])
    exact rearranges_rulesDocument
      (.mapping (List.forall₂_same.mpr fun _ _ => ⟨rfl, .same _⟩) moved)
  have rendered : Session.renderRequest (rulesFlow [long, all, own])
      { flow := rulesFlow [long, all, own] } c "list" =
      .ok (.ok ⟨"GET", "/b/b", [], none, none⟩) := by
    decide +kernel
  have rendered' : Session.renderRequest (rulesFlow [long, own, all])
      { flow := rulesFlow [long, all, own] } c "list" =
      .ok (.ok ⟨"GET", "/a/b", [], none, none⟩) := by
    decide +kernel
  exact ⟨_, _, _, _, _, _, _, _, compiled, rearranged, compiled', rendered, rendered', rfl, rfl⟩

end

end Flow

end Walkthrough
