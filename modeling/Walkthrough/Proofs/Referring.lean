import Walkthrough.Proofs.RuleOrder

/-!
# References to declared steps

A rule is added to a document that has a flow, with a reference to a field of a declared step. When the
name of the step holds no dot, the document with the rule has the same flow with one rule more, which
reads from that step. Any name that is not blank can be declared, but in a reference the name of the
step ends at the first dot. So a step with a dot in its name is never referred to: the rule is refused,
or it reads from the step whose name is the part in front of the dot.
-/

namespace Walkthrough

open Checks

/-! ## What is read -/

namespace Reference

variable {id name first others : String}

/-- What stands behind the first dot can be read unless a line ends in the name of the step. -/
theorem isTail_dotted (inLine : ∀ c ∈ name.toList, Text.isLineEnd c = false) :
    isTail (others ++ "." ++ name).toList = true ↔
      ∀ c ∈ others.toList, Text.isLineEnd c = false := by
  have dot : Text.isLineEnd '.' = false := by decide
  rw [isTail_iff]
  constructor
  · rintro ⟨_, all⟩ c mem
    exact all c (by simp [mem])
  · intro all
    refine ⟨by simp, fun c mem => ?_⟩
    have parts : c ∈ others.toList ∨ c = '.' ∨ c ∈ name.toList := by simpa [or_assoc] using mem
    rcases parts with mem | rfl | mem
    · exact all c mem
    · exact dot
    · exact inLine c mem

/-- A reference to a step with a dot in its name is read with the name cut at that dot. -/
theorem read?_dotted (cut : Text.CutAt '.' id first others) :
    read? (write (.field id name)) =
      if first ≠ "" ∧ isTail (others ++ "." ++ name).toList = true then
        some (.field first (others ++ "." ++ name))
      else none := by
  have written : (write (.field id name)).toList =
      "step.".toList ++ (first.toList ++ '.' :: (others ++ "." ++ name).toList) := by
    simp [write, cut.1]
  have noSetting : setting? (write (.field id name)).toList = none := by
    rw [written]
    rfl
  rw [read?, noSetting]
  unfold field?
  rw [written, afterChars?_append]
  simp only [Text.cutChars_append cut.2]
  by_cases both : first ≠ "" ∧ isTail (others ++ "." ++ name).toList = true
  · rw [if_pos both, if_pos (by simpa using both), String.ofList_toList, String.ofList_toList]
    rfl
  · rw [if_neg both, if_neg (by simpa using both)]
    rfl

end Reference

namespace Flow

variable {doc doc' : Record Value} {f f' : Flow} {ids : List String} {owner token id name : String}
  {scope : Option Scope} {source : String} {rules : List (String × List Rule)}

/-! ## Documents with one rule more -/

/-- The second mapping is the first one with one rule more, for one part of the request or for all. -/
inductive OneMore (token source : String) : Option Scope → Record Value → Record Value → Prop
  | whole (front back : Record Value) :
      OneMore token source none (front ++ back) (front ++ (token, .text source) :: back)
  | part {part : String} {scope : Scope} (named : Scope.ofName? part = some scope)
      (before front back after : Record Value) :
      OneMore token source (some scope) (before ++ (part, .mapping (front ++ back)) :: after)
        (before ++ (part, .mapping (front ++ (token, .text source) :: back)) :: after)

/-- The second document is the first one with one rule more for a step. -/
structure AddsRule (owner : String) (scope : Option Scope) (token source : String)
    (doc doc' : Record Value) : Prop where
  others : ∀ name, name ≠ "substitution_rules" → doc'.get? name = doc.get? name
  rules : ∃ before a b after, owner ∉ before.map Prod.fst ∧
    doc.get? "substitution_rules" = some (.mapping (before ++ (owner, .mapping a) :: after)) ∧
    doc'.get? "substitution_rules" = some (.mapping (before ++ (owner, .mapping b) :: after)) ∧
    OneMore token source scope a b

theorem rulesOfEntry_text (ids : List String) (step token source : String) :
    rulesOfEntry ids step (token, .text source) =
      (ruleOf ids step none (token, .text source)).map ([·]) := by
  unfold rulesOfEntry
  cases Scope.ofName? token <;> rfl

theorem rulesOfEntry_part {part : String} {scope : Scope} (named : Scope.ofName? part = some scope)
    (ids : List String) (step : String) (entries : Record Value) :
    rulesOfEntry ids step (part, .mapping entries) =
      entries.mapM (ruleOf ids step (some scope)) := by
  simp only [rulesOfEntry, named]

/-- The rules of a step with one rule more. -/
theorem rulesOfStep_oneMore {a b : Record Value} {x : String × List Rule}
    (more : OneMore token source scope a b) (made : rulesOfStep ids (owner, .mapping a) = .ok x) :
    ∃ front back, x = (owner, front ++ back) ∧ rulesOfStep ids (owner, .mapping b) =
      (ruleOf ids owner scope (token, .text source)).map fun r => (owner, front ++ r :: back) := by
  obtain ⟨_, declared, _⟩ := bind_ok_iff.mp made
  -- Of the step only its entries matter.
  have start (entries : Record Value) : rulesOfStep ids (owner, .mapping entries) =
      (entries.mapM (rulesOfEntry ids owner)).map fun rules => (owner, rules.flatten) := by
    unfold rulesOfStep
    rw [declared]
    show ((entries.mapM (rulesOfEntry ids owner)) >>= fun rules => pure (owner, rules.flatten)) = _
    cases entries.mapM (rulesOfEntry ids owner) <;> rfl
  rw [start] at made
  obtain ⟨read, each, rfl⟩ := map_ok_iff.mp made
  rw [start]
  cases more with
  | whole front back =>
    obtain ⟨before, after, first, last, rfl⟩ := mapM_append_ok_iff.mp each
    refine ⟨before.flatten, after.flatten, by simp, ?_⟩
    rw [mapM_between first last, rulesOfEntry_text]
    cases ruleOf ids owner none (token, .text source) <;> simp [Except.map]
  | part named before front back after =>
    obtain ⟨earlier, _, first, others, rfl⟩ := mapM_append_ok_iff.mp each
    obtain ⟨own, later, inside, last, rfl⟩ := mapM_cons_ok_iff.mp others
    rw [rulesOfEntry_part named] at inside
    obtain ⟨left, right, passed, follow, rfl⟩ := mapM_append_ok_iff.mp inside
    refine ⟨earlier.flatten ++ left, right ++ later.flatten, by simp, ?_⟩
    rw [mapM_between first last, rulesOfEntry_part named, mapM_between passed follow]
    cases ruleOf ids owner _ (token, .text source) <;> simp [Except.map]

theorem name_of_rulesOfStep {e : String × Value} {x : String × List Rule}
    (made : rulesOfStep ids e = .ok x) : e.1 ∈ ids ∧ x.1 = e.1 := by
  obtain ⟨_, declared, made⟩ := bind_ok_iff.mp made
  obtain ⟨_, _, made⟩ := bind_ok_iff.mp made
  obtain ⟨_, _, made⟩ := bind_ok_iff.mp made
  cases made
  exact ⟨known_ok_iff.mp declared, rfl⟩

theorem names_of_rulesOfStep {entries : Record Value}
    (made : entries.mapM (rulesOfStep ids) = .ok rules) :
    rules.map Prod.fst = entries.map Prod.fst := by
  induction mapM_ok_iff.mp made with
  | nil => rfl
  | cons first rest ih =>
    rw [List.map_cons, List.map_cons, ih (mapM_ok_iff.mpr rest), (name_of_rulesOfStep first).2]

/-- The rules of all steps with one rule more. -/
theorem rulesOf_addsRule (adds : AddsRule owner scope token source doc doc')
    (made : rulesOf ids (doc.get? "substitution_rules") = .ok rules) :
    owner ∈ ids ∧ ∃ before front back after, owner ∉ before.map Prod.fst ∧
      rules = before ++ (owner, front ++ back) :: after ∧
      rulesOf ids (doc'.get? "substitution_rules") =
        (ruleOf ids owner scope (token, .text source)).map fun r =>
          before ++ (owner, front ++ r :: back) :: after := by
  obtain ⟨before, a, b, after, fresh, found, found', more⟩ := adds.rules
  have start (entries : Record Value) : rulesOf ids (some (.mapping entries)) =
      entries.mapM (rulesOfStep ids) := rfl
  rw [found, start] at made
  obtain ⟨earlier, _, first, others, rfl⟩ := mapM_append_ok_iff.mp made
  obtain ⟨own, later, inside, last, rfl⟩ := mapM_cons_ok_iff.mp others
  obtain ⟨front, back, rfl, again⟩ := rulesOfStep_oneMore more inside
  refine ⟨(name_of_rulesOfStep inside).1, earlier, front, back, later, ?_, rfl, ?_⟩
  · rw [names_of_rulesOfStep first]
    exact fresh
  · rw [found', start, mapM_between first last, again]
    cases ruleOf ids owner scope (token, .text source) <;> rfl

/-! ## Flows with one rule more -/

/-- The second flow is the first one with one rule more for a step. -/
structure GainsRule (owner : String) (r : Rule) (f f' : Flow) : Prop where
  order : f'.order = f.order
  schedule : f'.schedule = f.schedule
  endpointDefaults : f'.endpointDefaults = f.endpointDefaults
  own : ∃ d front back, f.step? owner = some d ∧ d.rules = front ++ back ∧
    f'.step? owner = some { d with rules := front ++ r :: back }
  others : ∀ x, x ≠ owner → f'.step? x = f.step? x

theorem lookup_between {β : Type} {before : List (String × β)} (fresh : owner ∉ before.map Prod.fst)
    (y : β) (after : List (String × β)) :
    (before ++ (owner, y) :: after).lookup owner = some y ∧
      ∀ x, x ≠ owner → ∀ z, (before ++ (owner, y) :: after).lookup x =
        (before ++ (owner, z) :: after).lookup x := by
  induction before with
  | nil =>
    refine ⟨List.lookup_cons_self, fun x other z => ?_⟩
    have apart : (x == owner) = false := beq_eq_false_iff_ne.mpr other
    simp only [List.nil_append, List.lookup_cons, apart]
  | cons e before ih =>
    obtain ⟨name, own⟩ := e
    rw [List.map_cons, List.mem_cons, not_or] at fresh
    obtain ⟨here, elsewhere⟩ := ih fresh.2
    have apart : (owner == name) = false := beq_eq_false_iff_ne.mpr fresh.1
    refine ⟨by simpa only [List.cons_append, List.lookup_cons, apart] using here, fun x other z => ?_⟩
    simp only [List.cons_append, List.lookup_cons, elsewhere x other z]

theorem Parts.gainsRule (p : Parts) (declared : owner ∈ p.ids)
    {before after : List (String × List Rule)} {front back : List Rule}
    (fresh : owner ∉ before.map Prod.fst)
    (ruled : p.rules = before ++ (owner, front ++ back) :: after) (r : Rule) :
    GainsRule owner r p.flow
      ({ p with rules := before ++ (owner, front ++ r :: back) :: after } : Parts).flow := by
  obtain ⟨here, _⟩ := lookup_between fresh (front ++ back) after
  obtain ⟨here', elsewhere⟩ := lookup_between fresh (front ++ r :: back) after
  constructor
  case order =>
    rw [Parts.order_flow, Parts.order_flow]
    rfl
  case schedule => rfl
  case endpointDefaults => rfl
  case own =>
    rw [← p.order_flow] at declared
    obtain ⟨d, found⟩ := exists_step?_of_mem declared
    have made := found
    rw [Parts.step?_flow] at made
    obtain ⟨e, first, rfl⟩ := Option.map_eq_some_iff.mp made
    have same : e.id = owner := by simpa using List.find?_some first
    refine ⟨_, front, back, found, ?_, ?_⟩
    · rw [stepOf, same, ruled, here]
      rfl
    · rw [Parts.step?_flow, first]
      simp only [Option.map_some, stepOf, same, here', Option.getD_some]
  case others =>
    intro x other
    rw [Parts.step?_flow, Parts.step?_flow]
    cases first : p.declarations.find? (·.id == x) with
    | none => rfl
    | some e =>
      have same : e.id = x := by simpa using List.find?_some first
      simp only [Option.map_some, stepOf, same, ruled, elsewhere x other (front ++ back)]

/-- Whether a rule can be added to a document depends on the rule alone. -/
theorem ofDocument_addsRule (compiled : ofDocument (some (.mapping doc)) = .ok f)
    (adds : AddsRule owner scope token source doc doc') :
    (∀ r, ruleOf f.order owner scope (token, .text source) = .ok r →
      ∃ f', ofDocument (some (.mapping doc')) = .ok f' ∧ GainsRule owner r f f') ∧
    ∀ fault, ruleOf f.order owner scope (token, .text source) = .error fault →
      ofDocument (some (.mapping doc')) = .error fault := by
  obtain ⟨_, p, found, made, rfl⟩ := parts_of_ofDocument compiled
  cases found
  obtain ⟨declared, before, front, back, after, fresh, ruled, read⟩ :=
    rulesOf_addsRule adds made.rules
  have whole := made.ofDocument_rules adds.others
  rw [read] at whole
  rw [p.order_flow]
  constructor
  · intro r passed
    rw [passed] at whole
    exact ⟨_, whole, p.gainsRule declared fresh ruled r⟩
  · intro fault failed
    rw [whole, failed]
    rfl

/-! ## Adding a reference to a declared step -/

theorem ruleOf_of_unread (named : token ≠ "") (unread : Reference.read? source = none) :
    ruleOf ids owner scope (token, .text source) =
      .error (.badReference (.rule owner scope token) source) := by
  have present : token.isEmpty = false := by
    rw [Bool.eq_false_iff, ne_eq, String.isEmpty_iff]
    exact named
  simp only [ruleOf, Value.text?, present, unread]
  rfl

theorem ruleOf_of_field (named : token ≠ "") (read : Reference.read? source = some (.field id name)) :
    ruleOf ids owner scope (token, .text source) =
      if id ∈ ids then .ok ⟨token, .field id name, source, scope⟩
      else .error (.unknownStep (.rule owner scope token) id) := by
  by_cases declared : id ∈ ids
  · rw [if_pos declared, ruleOf_ok_iff]
    refine ⟨named, rfl, read, fun step field reads => ?_, rfl, rfl⟩
    cases reads
    exact declared
  · have present : token.isEmpty = false := by
      rw [Bool.eq_false_iff, ne_eq, String.isEmpty_iff]
      exact named
    rw [if_neg declared]
    simp only [ruleOf, Value.text?, present, read, known, List.contains_iff_mem, declared]
    rfl

theorem visible_of_declarationsOf {v : Option Value} {ds : List Declaration}
    (h : declarationsOf v = .ok ds) : ∀ d ∈ ds, Text.allBlank d.id = false := by
  obtain ⟨items, listed, some, each⟩ := forall₂_of_declarationsOf h
  clear h listed some
  induction each with
  | nil => simp
  | cons first _ ih =>
    obtain ⟨_, _, made⟩ := first
    obtain ⟨_, _, _, visible, _⟩ := declarationOf_ok_iff.mp made
    exact List.forall_mem_cons.mpr ⟨visible, ih⟩

/-- No step is declared with an empty name. -/
theorem ne_empty_of_mem_order (compiled : ofDocument (some (.mapping doc)) = .ok f)
    (declared : id ∈ f.order) : id ≠ "" := by
  obtain ⟨_, p, found, made, rfl⟩ := parts_of_ofDocument compiled
  cases found
  rw [p.order_flow] at declared
  obtain ⟨d, mem, rfl⟩ := List.mem_map.mp declared
  intro empty
  have visible := visible_of_declarationsOf made.declarations d mem
  rw [empty] at visible
  cases visible

/-- What comes of a document when a rule is added to it that has a reference to a field of a declared
step. If the name of the step has no dot, the rule reads from this step. If it has one, the part in
front of it is taken for the name of a step: the rule is refused, or it reads from another step. -/
theorem adds_reference (compiled : ofDocument (some (.mapping doc)) = .ok f)
    (adds : AddsRule owner scope token (Reference.write (.field id name)) doc doc')
    (declared : id ∈ f.order) (named : token ≠ "") (some : name ≠ "")
    (inLine : ∀ c ∈ name.toList, Text.isLineEnd c = false) :
    ('.' ∉ id.toList → ∃ f', ofDocument (Option.some (.mapping doc')) = .ok f' ∧
      GainsRule owner ⟨token, .field id name, Reference.write (.field id name), scope⟩ f f') ∧
    ∀ first others, Text.CutAt '.' id first others →
      (first = "" ∨ (∃ c ∈ others.toList, Text.isLineEnd c = true) →
        ofDocument (Option.some (.mapping doc')) =
          .error (.badReference (.rule owner scope token) (Reference.write (.field id name)))) ∧
      (first ≠ "" → (∀ c ∈ others.toList, Text.isLineEnd c = false) →
        (first ∉ f.order → ofDocument (Option.some (.mapping doc')) =
          .error (.unknownStep (.rule owner scope token) first)) ∧
        (first ∈ f.order → ∃ f', ofDocument (Option.some (.mapping doc')) = .ok f' ∧
          GainsRule owner ⟨token, .field first (others ++ "." ++ name),
            Reference.write (.field id name), scope⟩ f f')) := by
  obtain ⟨passes, fails⟩ := ofDocument_addsRule compiled adds
  refine ⟨fun whole => ?_, fun first others cut => ⟨fun unread => ?_, fun present within => ?_⟩⟩
  · have tail : Reference.isTail name.toList = true :=
      Reference.isTail_iff.mpr ⟨by simpa using some, inLine⟩
    have read := Reference.read?_field (ne_empty_of_mem_order compiled declared) whole tail
    refine passes _ ?_
    rw [ruleOf_of_field named read, if_pos declared]
  · refine fails _ (ruleOf_of_unread named ?_)
    rw [Reference.read?_dotted cut, if_neg]
    rintro ⟨present, tail⟩
    rcases unread with empty | ⟨c, mem, ends⟩
    · exact present empty
    · rw [(Reference.isTail_dotted inLine).mp tail c mem] at ends
      cases ends
  · have read : Reference.read? (Reference.write (.field id name)) =
        Option.some (.field first (others ++ "." ++ name)) := by
      rw [Reference.read?_dotted cut, if_pos ⟨present, (Reference.isTail_dotted inLine).mpr within⟩]
    refine ⟨fun missing => fails _ ?_, fun mem => passes _ ?_⟩
    · rw [ruleOf_of_field named read, if_neg missing]
    · rw [ruleOf_of_field named read, if_pos mem]

/-! ## References with dots -/

/-- A document with these manual steps, and one that sends a request with these rules. -/
def referringDocument (manual : List String) (rules : Record Value) : Record Value :=
  [("steps", .list ((manual.map fun id => .mapping [("id", .text id), ("manual", .bool true)]) ++
      [.mapping [("id", .text "list")]])),
    ("requests", .mapping [("list", .mapping [("url", .text "/<key>")])]),
    ("substitution_rules", .mapping [("list", .mapping rules)])]

theorem adds_referringDocument {manual : List String} {a b : Record Value}
    (more : OneMore token source scope a b) : AddsRule "list" scope token source
      (referringDocument manual a) (referringDocument manual b) where
  others := by
    intro name other
    have apart : ("substitution_rules" == name) = false := beq_eq_false_iff_ne.mpr other.symm
    simp only [referringDocument, Record.get?, List.find?_cons, apart]
  rules := ⟨[], a, b, [], by simp, rfl, rfl, more⟩

/-- A field with dots of a step without, for the URL alone, in front of another rule. -/
theorem adds_reference_to_login : ∃ (doc doc' : Record Value) (f f' : Flow),
    ofDocument (some (.mapping doc)) = .ok f ∧ "login" ∈ f.order ∧
      AddsRule "list" (some .url) "<key>" "step.login.a..b" doc doc' ∧
      ofDocument (some (.mapping doc')) = .ok f' ∧
      GainsRule "list" ⟨"<key>", .field "login" "a..b", "step.login.a..b", some .url⟩ f f' := by
  have compiled : ofDocument (some (.mapping (referringDocument ["login"]
      [("url", .mapping [("<k>", .text "var.k")])]))) = .ok _ := rfl
  have url : Scope.ofName? "url" = some .url := rfl
  have adds := @adds_referringDocument "<key>" (some .url) "step.login.a..b" ["login"] _ _
    (.part url [] [] [("<k>", .text "var.k")] [])
  obtain ⟨whole, _⟩ := @adds_reference _ _ _ "list" "<key>" "login" "a..b" (some .url) compiled adds
    (by decide) (by decide) (by decide) (by simp [Text.isLineEnd])
  obtain ⟨f', compiled', gains⟩ := whole (by decide)
  exact ⟨_, _, _, f', compiled, by decide, adds, compiled', gains⟩

/-- A rule that reads from the step `a.b` is refused, and where a step `a` is declared as well, it
reads from that step. -/
theorem dotted_step_out_of_reach : ∃ (f g g' : Flow) (d : Step),
    ofDocument (some (.mapping (referringDocument ["a.b"] []))) = .ok f ∧ "a.b" ∈ f.order ∧
      ofDocument (some (.mapping (referringDocument ["a.b"] [("<key>", .text "step.a.b.key")]))) =
        .error (.unknownStep (.rule "list" none "<key>") "a") ∧
      ofDocument (some (.mapping (referringDocument ["a", "a.b"] []))) = .ok g ∧ "a.b" ∈ g.order ∧
      ofDocument (some (.mapping (referringDocument ["a", "a.b"]
        [("<key>", .text "step.a.b.key")]))) = .ok g' ∧
      g'.step? "list" = some d ∧
      d.rules = [⟨"<key>", .field "a" "b.key", "step.a.b.key", none⟩] := by
  have compiled : ofDocument (some (.mapping (referringDocument ["a.b"] []))) = .ok _ := rfl
  have both : ofDocument (some (.mapping (referringDocument ["a", "a.b"] []))) = .ok _ := rfl
  have misread : ofDocument (some (.mapping (referringDocument ["a", "a.b"]
      [("<key>", .text "step.a.b.key")]))) = .ok _ := rfl
  exact ⟨_, _, _, _, compiled, by decide, rfl, both, by decide, misread, rfl, rfl⟩

end Flow

end Walkthrough
