import Walkthrough.Proofs.Inlay
import Walkthrough.Proofs.Rendering

/-!
# Values in a rendered request

A request is rendered verbatim when the values of endpoints and rules are inserted into the template
and none of them is read (`Session.Verbatim`). The values of rules never are. The values of endpoints
are inserted before the tokens are sought and before placeholders are, so they are read together with
the text around them; `Template.Inert` says that nothing is found in them. For such values the
program renders verbatim, and whether it succeeds depends on which values there are and not on what
they say (`Session.verbatim_of_inert`).
-/

namespace Walkthrough

open Walkthrough.Checks

namespace Template

variable {c b : EndpointContext} {scope : Scope} {rules : List Rule} {values : List (Rule × String)}
  {ps qs : List Piece} {t v cs units : List Char} {text out : String}

/-! ## A template with its values -/

/-- The units of the value of an endpoint. -/
def valueUnits (c : EndpointContext) (name : List Char) : List Char :=
  unitsOf ((c.endpoint? (String.ofList name)).getD "")

/-- A text in units with its endpoints still open. -/
def openUnits (text : String) : List Piece :=
  unitPieces (pieces endpointForm text.toList)

/-- A rule that covers the part has the token. -/
def InUse (rules : List Rule) (scope : Scope) (t : List Char) : Prop :=
  ∃ r ∈ rules, r.Covers scope ∧ unitsOf r.token = t

/-- The tokens in use, each bound to nothing. -/
def Erased (rules : List Rule) (scope : Scope) : Binding := fun t v =>
  v = [] ∧ InUse rules scope t

/-- Every endpoint in the text has a value. -/
def Resolved (c : EndpointContext) (text : String) : Prop :=
  ∀ name ∈ slots endpointForm text, ∃ v, c.Gives name v

/-- When the tokens are taken out of the template's own text, no placeholder is left in it. -/
def Covered (rules : List Rule) (scope : Scope) (text : String) : Prop :=
  ∃ rest, Scans (Erased rules scope) (openUnits text) rest ∧
    ∀ name, tokenForm.IsName name → ¬(tokenForm.write name).map .char <:+: rest

/-- The text with the tokens of its own replaced, and then its endpoints filled in. -/
def Inlaid (c : EndpointContext) (values : List (Rule × String)) (scope : Scope)
    (text out : String) : Prop :=
  ∃ ps, Scans (Binds scope values) (openUnits text) ps ∧
    out = String.ofList (Text.join (fillUnits (valueUnits c) ps))

/-- In the filled part no token stands, and after the tokens are taken out no placeholder, but those
of the template's own text. -/
structure Inert (c : EndpointContext) (rules : List Rule) (part : Scope × String) : Prop where
  tokens : ∀ t, InUse rules part.1 t → Native (valueUnits c) (openUnits part.2) t
  placeholders : ∀ rest, Scans (Erased rules part.1) (openUnits part.2) rest →
    ∀ name, tokenForm.IsName name → Native (valueUnits c) rest (tokenForm.write name)

/-! ## Filling -/

@[simp] theorem slots_char {a : Char} :
    (Piece.char a :: ps).filterMap Piece.slot? = ps.filterMap Piece.slot? := rfl

@[simp] theorem slots_slot {name : List Char} : (Piece.slot name :: ps).filterMap Piece.slot? =
    String.ofList name :: ps.filterMap Piece.slot? := rfl

theorem exists_fills_iff :
    (∃ cs, Fills c ps cs) ↔ ∀ name ∈ ps.filterMap Piece.slot?, ∃ v, c.Gives name v := by
  induction ps with
  | nil => exact iff_of_true ⟨[], .nil⟩ (by simp)
  | cons p ps ih =>
    cases p with
    | char a =>
      rw [slots_char, ← ih]
      constructor
      · rintro ⟨_, _ | later⟩
        exact ⟨_, later⟩
      · rintro ⟨cs, later⟩
        exact ⟨_, .char later⟩
    | slot name =>
      rw [slots_slot, List.forall_mem_cons, ← ih]
      constructor
      · rintro ⟨_, _ | _ | ⟨given, later⟩⟩
        exact ⟨⟨_, given⟩, _, later⟩
      · rintro ⟨⟨v, given⟩, cs, later⟩
        exact ⟨_, .slot given later⟩

theorem exists_filled_iff : (∃ mid, Filled c text mid) ↔ Resolved c text := by
  unfold Resolved slots
  rw [← exists_fills_iff]
  simp only [Filled, endpointForm_bracketed.splits_iff]
  constructor
  · rintro ⟨_, _, cs, rfl, fills, _⟩
    exact ⟨cs, fills⟩
  · rintro ⟨cs, fills⟩
    exact ⟨_, _, cs, rfl, fills, rfl⟩

theorem split_of_fills (fills : Fills c ps cs) :
    Text.split cs = fillUnits (valueUnits c) (unitPieces ps) := by
  induction fills with
  | nil => rfl
  | @char a ps cs _ ih =>
    have apart : Text.split (a :: cs) = Text.split [a] ++ Text.split cs :=
      Text.split_append [a] cs
    rw [apart, ih]
    simp [unitPieces]
  | @slot name v ps cs given _ ih =>
    have value : valueUnits c name = Text.split v.toList := by
      simp [valueUnits, EndpointContext.endpoint?_eq_some_iff.mpr given, unitsOf]
    rw [Text.split_append, ih, ← value]
    simp [unitPieces, pieceUnits]

theorem unitsOf_filled {mid : String} (filled : Filled c text mid) :
    unitsOf mid = fillUnits (valueUnits c) (openUnits text) := by
  obtain ⟨ps, cs, split, fills, rfl⟩ := filled
  rw [unitsOf, String.toList_ofList, split_of_fills fills, openUnits,
    endpointForm_bracketed.splits_iff.mp split]

/-- A text is filled alike with the same values. -/
theorem Filled.congr {mid : String} (filled : Filled c text mid)
    (same : ∀ name ∈ slots endpointForm text, c.endpoint? name = b.endpoint? name) :
    Filled b text mid := by
  obtain ⟨ps, cs, split, fills, rfl⟩ := filled
  refine ⟨ps, cs, split, ?_, rfl⟩
  unfold slots at same
  rw [endpointForm_bracketed.splits_iff.mp split] at same
  clear split
  induction fills with
  | nil => exact .nil
  | char _ ih => exact .char (ih same)
  | slot given _ ih =>
    rw [slots_slot, List.forall_mem_cons] at same
    rw [← EndpointContext.endpoint?_eq_some_iff, same.1,
      EndpointContext.endpoint?_eq_some_iff] at given
    exact .slot given (ih same.2)

/-! ## Tokens -/

theorem exists_binds_iff :
    (∃ v, Binds scope values t v) ↔ InUse (values.map (·.1)) scope t := by
  induction values using List.reverseRecOn with
  | nil => simp [Binds, InUse]
  | append_singleton values e ih =>
    by_cases last : e.1.Covers scope ∧ unitsOf e.1.token = t
    · obtain ⟨covers, rfl⟩ := last
      refine iff_of_true ⟨_, (binds_concat_of_covers covers).mpr rfl⟩ ?_
      exact ⟨e.1, by simp, covers, rfl⟩
    · simp only [binds_concat_of_not last, ih]
      simp only [InUse, List.map_append, List.mem_append, List.map_cons, List.map_nil,
        List.mem_singleton, or_and_right, exists_or, exists_eq_left, last, or_false]

theorem blank_binds : (Binds scope values).blank = Erased (values.map (·.1)) scope := by
  funext t v
  exact propext (and_congr_right fun _ => exists_binds_iff)

theorem definite_erased (tokens : ∀ r ∈ rules, r.token ≠ "") :
    Binding.Definite (Erased rules scope) where
  filled := by
    rintro t _ ⟨_, r, mem, _, rfl⟩
    exact unitsOf_ne_nil (tokens r mem)
  single := by
    rintro t _ _ ⟨rfl, _⟩ ⟨rfl, _⟩
    rfl

/-- No placeholder is left in the units when the tokens are taken out. -/
def Bound (rules : List Rule) (scope : Scope) (cs : List Char) : Prop :=
  ∃ units, Rewrites (Erased rules scope) cs units ∧
    ∀ name, tokenForm.IsName name → ¬tokenForm.write name <:+: units

theorem exists_rewrites {binds : Binding} (filled : ∀ t v, binds t v → t ≠ []) (cs : List Char) :
    ∃ out, Rewrites binds cs out := by
  -- Units without endpoints are scanned as they are.
  obtain ⟨qs, scan⟩ := exists_scans filled (cs.map .char)
  have rewrites := scan.rewrites (V := fun _ => []) filled fun t _ _ => native_chars _ cs t
  rw [fillUnits_chars] at rewrites
  exact ⟨_, rewrites⟩

theorem not_leaves_iff (tokens : ∀ e ∈ values, e.1.token ≠ "") :
    (∀ name, ¬Leaves values scope text name) ↔
      Bound (values.map (·.1)) scope (unitsOf text) := by
  have definite : Binding.Definite (Erased (values.map (·.1)) scope) :=
    definite_erased (by simpa using tokens)
  simp only [Leaves, Bound, blank_binds]
  constructor
  · intro free
    obtain ⟨units, erased⟩ := exists_rewrites definite.filled (unitsOf text)
    have split : Splits tokenForm units (pieces tokenForm units) :=
      tokenForm_bracketed.splits_iff.mpr rfl
    refine ⟨units, erased, split.slots_eq_nil_iff.mp ?_⟩
    rw [← List.head?_eq_none_iff, Option.eq_none_iff_forall_ne_some]
    exact fun name first => free name ⟨units, _, erased, split, first⟩
  · rintro ⟨units, erased, free⟩ name ⟨other, ps, again, split, first⟩
    cases erased.unique_of_eq definite again rfl
    rw [split.slots_eq_nil_iff.mpr free] at first
    cases first

theorem exists_rewritten (tokens : ∀ e ∈ values, e.1.token ≠ "") (scope : Scope) (text : String) :
    ∃ out, Rewritten values scope text out :=
  ⟨_, (rewritten_iff tokens).mpr rfl⟩

/-! ## Inert values -/

section
variable {mid : String}

theorem Inert.bound_iff (inert : Inert c rules (scope, text)) (tokens : ∀ r ∈ rules, r.token ≠ "")
    (filled : Filled c text mid) : Bound rules scope (unitsOf mid) ↔ Covered rules scope text := by
  have definite : Binding.Definite (Erased rules scope) := definite_erased tokens
  have native : ∀ t v, Erased rules scope t v → Native (valueUnits c) (openUnits text) t :=
    fun t _ bound => inert.tokens t bound.2
  rw [unitsOf_filled filled]
  constructor
  · rintro ⟨units, erased, free⟩
    obtain ⟨rest, scan⟩ := exists_scans definite.filled (openUnits text)
    cases erased.unique_of_eq definite (scan.rewrites definite.filled native) rfl
    refine ⟨rest, scan, ?_⟩
    intro name named
    rw [← (inert.placeholders rest scan name named).infix_iff]
    exact free name named
  · rintro ⟨rest, scan, free⟩
    refine ⟨_, scan.rewrites definite.filled native, ?_⟩
    intro name named
    rw [(inert.placeholders rest scan name named).infix_iff]
    exact free name named

theorem Inert.rewritten_iff (inert : Inert c (values.map (·.1)) (scope, text))
    (tokens : ∀ e ∈ values, e.1.token ≠ "") (filled : Filled c text mid) :
    Rewritten values scope mid out ↔ Inlaid c values scope text out := by
  have definite : Binding.Definite (Binds scope values) := definite_binds tokens
  have native : ∀ t v, Binds scope values t v → Native (valueUnits c) (openUnits text) t :=
    fun t v bound => inert.tokens t (exists_binds_iff.mp ⟨v, bound⟩)
  rw [Rewritten, unitsOf_filled filled]
  constructor
  · rintro ⟨units, rewrites, rfl⟩
    obtain ⟨qs, scan⟩ := exists_scans definite.filled (openUnits text)
    cases rewrites.unique_of_eq definite (scan.rewrites definite.filled native) rfl
    exact ⟨qs, scan, rfl⟩
  · rintro ⟨qs, scan, rfl⟩
    exact ⟨_, scan.rewrites definite.filled native, rfl⟩

theorem Inert.rendered_iff (inert : Inert c (values.map (·.1)) (scope, text))
    (tokens : ∀ e ∈ values, e.1.token ≠ "") :
    (∃ mid, Filled c text mid ∧ (∀ name, ¬Leaves values scope mid name) ∧
      Rewritten values scope mid out) ↔
      (Resolved c text ∧ Covered (values.map (·.1)) scope text) ∧
        Inlaid c values scope text out := by
  rw [← exists_filled_iff]
  simp only [not_leaves_iff tokens]
  have named : ∀ r ∈ values.map (·.1), r.token ≠ "" := by simpa using tokens
  constructor
  · rintro ⟨mid, filled, bound, rewritten⟩
    exact ⟨⟨⟨mid, filled⟩, (inert.bound_iff named filled).mp bound⟩,
      (inert.rewritten_iff tokens filled).mp rewritten⟩
  · rintro ⟨⟨⟨mid, filled⟩, covered⟩, inlaid⟩
    exact ⟨mid, filled, (inert.bound_iff named filled).mpr covered,
      (inert.rewritten_iff tokens filled).mpr inlaid⟩

/-- The part can be rendered, as far as tokens and endpoints go. -/
def Clears (c : EndpointContext) (rules : List Rule) (part : Scope × String) : Prop :=
  ∃ mid, Filled c part.2 mid ∧ Bound rules part.1 (unitsOf mid)

theorem Inert.clears_iff {part : Scope × String} (inert : Inert c rules part)
    (tokens : ∀ r ∈ rules, r.token ≠ "") :
    Clears c rules part ↔ Resolved c part.2 ∧ Covered rules part.1 part.2 := by
  rw [← exists_filled_iff]
  constructor
  · rintro ⟨mid, filled, bound⟩
    exact ⟨⟨mid, filled⟩, (inert.bound_iff tokens filled).mp bound⟩
  · rintro ⟨⟨mid, filled⟩, covered⟩
    exact ⟨mid, filled, (inert.bound_iff tokens filled).mpr covered⟩

/-- Either the endpoints in the part have the same values twice, or those that have a value are the
same ones and their values are inert both times. -/
def Comparable (c b : EndpointContext) (rules : List Rule) (part : Scope × String) : Prop :=
  (∀ name ∈ slots endpointForm part.2, c.endpoint? name = b.endpoint? name) ∨
    (∀ name ∈ slots endpointForm part.2, (∃ v, c.Gives name v) ↔ ∃ v, b.Gives name v) ∧
      Inert c rules part ∧ Inert b rules part

theorem Comparable.clears_iff {part : Scope × String} (comparable : Comparable c b rules part)
    (tokens : ∀ r ∈ rules, r.token ≠ "") : Clears c rules part ↔ Clears b rules part := by
  rcases comparable with same | ⟨present, inert, inertToo⟩
  · constructor
    · rintro ⟨mid, filled, bound⟩
      exact ⟨mid, filled.congr same, bound⟩
    · rintro ⟨mid, filled, bound⟩
      exact ⟨mid, filled.congr fun name mem => (same name mem).symm, bound⟩
  · rw [inert.clears_iff tokens, inertToo.clears_iff tokens]
    exact and_congr_left fun _ => forall₂_congr present

end

end Template

/-! ## Requests -/

namespace Session

open Template (Partwise Filled Rewritten Leaves Resolved Covered Inlaid Inert Clears Comparable
  Bound parts)

variable {s : Session} {c : EndpointContext} {template request : Request} {rules : List Rule}
  {values : List (Rule × String)}

/-- The request is the template with its values in it: every endpoint has one, every placeholder of
the template is covered by a token, every rule has a value, and none of the values has been read. -/
def Verbatim (s : Session) (c : EndpointContext) (template : Request) (rules : List Rule)
    (request : Request) : Prop :=
  (∀ part ∈ parts template, Resolved c part.2 ∧ Covered rules part.1 part.2) ∧
    ∃ values, Supplied s c rules values ∧ Partwise (Inlaid c values) template request

theorem Supplied.map_eq (supplied : Supplied s c rules values) : values.map (·.1) = rules := by
  induction supplied with
  | nil => rfl
  | cons first _ ih => rw [List.map_cons, first.1, ih]

theorem exists_supplied_iff :
    (∃ values, Supplied s c rules values) ↔ ∀ r ∈ rules, ∃ v, Supplies s c r v := by
  unfold Supplied
  rw [exists_forall₂_iff]
  simp

theorem render_ok_iff (tokens : ∀ r ∈ rules, r.token ≠ "") :
    Template.render c.endpoint? (s.resolve c) template rules = .ok request ↔
      ∃ values, Supplied s c rules values ∧
        Partwise (fun scope text out => ∃ mid, Filled c text mid ∧
          (∀ name, ¬Leaves values scope mid name) ∧ Rewritten values scope mid out)
          template request := by
  rw [render_eq]
  simp only [bind_ok_iff, fillAll_ok_iff, resolveAll_ok_iff]
  constructor
  · rintro ⟨filled, fills, values, supplied, substitutes⟩
    have named := tokens_of_supplied supplied tokens
    exact ⟨values, supplied,
      Template.partwise_comp_iff.mp ⟨filled, fills, (substituteAll_ok_iff named).mp substitutes⟩⟩
  · rintro ⟨values, supplied, both⟩
    have named := tokens_of_supplied supplied tokens
    obtain ⟨filled, fills, rewritten⟩ := Template.partwise_comp_iff.mpr both
    exact ⟨filled, fills, values, supplied, (substituteAll_ok_iff named).mpr rewritten⟩

theorem verbatim_iff (tokens : ∀ r ∈ rules, r.token ≠ "")
    (inert : ∀ part ∈ parts template, Inert c rules part) :
    Template.render c.endpoint? (s.resolve c) template rules = .ok request ↔
      Verbatim s c template rules request := by
  rw [render_ok_iff tokens, Verbatim, ← exists_and_left]
  refine exists_congr fun values => ?_
  rw [and_left_comm]
  refine and_congr_right fun supplied => ?_
  have named := tokens_of_supplied supplied tokens
  have same := supplied.map_eq
  subst same
  rw [← Template.partwise_and_iff]
  exact Template.partwise_congr fun part mem out => (inert part mem).rendered_iff named

/-- Whether a template can be rendered depends on which values there are, and on the endpoints. -/
theorem exists_render_iff (tokens : ∀ r ∈ rules, r.token ≠ "") :
    (∃ request, Template.render c.endpoint? (s.resolve c) template rules = .ok request) ↔
      (∀ r ∈ rules, ∃ v, Supplies s c r v) ∧ ∀ part ∈ parts template, Clears c rules part := by
  simp only [render_ok_iff tokens]
  rw [exists_comm, ← exists_supplied_iff, ← exists_and_right]
  refine exists_congr fun values => ?_
  rw [exists_and_left]
  refine and_congr_right fun supplied => ?_
  have named := tokens_of_supplied supplied tokens
  rw [Template.exists_partwise_iff]
  refine forall₂_congr fun part _ => ?_
  simp only [Template.not_leaves_iff named, supplied.map_eq, Clears]
  constructor
  · rintro ⟨out, mid, filled, bound, _⟩
    exact ⟨mid, filled, bound⟩
  · rintro ⟨mid, filled, bound⟩
    obtain ⟨out, rewritten⟩ := Template.exists_rewritten named part.1 mid
    exact ⟨out, mid, filled, bound, rewritten⟩

/-- An automatic step is rendered verbatim, with whatever values for its rules and with inert values
for its endpoints. Whether it can be rendered depends on which values there are; on what they say it
does not depend for rules, and for endpoints only where they are not inert. -/
theorem verbatim_of_inert {doc : Option Value} {f : Flow} {id : String} {d : Step}
    (compiled : Flow.ofDocument doc = .ok f) (found : f.step? id = some d)
    (automatic : d.template = some template) :
    (∀ s c, (∀ part ∈ parts template, Inert c d.rules part) → ∀ request,
      renderRequest f s c id = .ok (.ok request) ↔ Verbatim s c template d.rules request) ∧
    ∀ s c t b, (∀ part ∈ parts template, Comparable c b d.rules part) →
      (∀ r ∈ d.rules, (∃ v, Supplies s c r v) ↔ ∃ v, Supplies t b r v) →
        ((∃ request, renderRequest f s c id = .ok (.ok request)) ↔
          ∃ request, renderRequest f t b id = .ok (.ok request)) := by
  have tokens := token_ne_empty compiled found
  have rendered : ∀ s c request, renderRequest f s c id = .ok (.ok request) ↔
      Template.render c.endpoint? (s.resolve c) template d.rules = .ok request := by
    intro s c request
    simp [renderRequest, found, automatic]
  simp only [rendered]
  constructor
  · intro s c inert request
    exact verbatim_iff tokens inert
  · intro s c t b comparable present
    rw [exists_render_iff tokens, exists_render_iff tokens]
    refine and_congr (forall₂_congr present) (forall₂_congr fun part mem => ?_)
    exact (comparable part mem).clears_iff tokens

/-! ## Values that are read again -/

section
open Template (Scans Binding Erased Binds openUnits)

/-- The URL of the step: an endpoint before a token. -/
def echoUrl : String :=
  "\x7bserver\x7d/<key>"

def echoRule : Rule :=
  ⟨"<key>", .setting "key", "var.key", none⟩

def echoFlow : Flow :=
  { steps := [⟨"list", "list", "", [], [], [], some ⟨"GET", echoUrl, [], none, none⟩, [echoRule]⟩]
    endpointDefaults := [], schedule := ["list"], warnings := [] }

theorem ofDocument_echo : Flow.ofDocument (some (.mapping
    [("steps", .list [.mapping [("id", .text "list")]]),
      ("requests", .mapping [("list", .mapping [("url", .text echoUrl)])]),
      ("substitution_rules", .mapping
        [("list", .mapping [("<key>", .text "var.key")])])])) = .ok echoFlow := rfl

def echoContext (server key : String) : EndpointContext :=
  { discovered := [("server", server)], defaults := [], baseUrl := none, vars := [("key", key)] }

theorem openUnits_echo : openUnits echoUrl =
    [.slot "server".toList, .char '/'] ++ (('<' :: "key>".toList).map .char ++ []) := by
  decide +kernel

theorem scans_echo {binds : Binding} {v : List Char}
    (only : ∀ t v, binds t v → t = '<' :: "key>".toList) (bound : binds ('<' :: "key>".toList) v) :
    Scans binds (openUnits echoUrl) ([.slot "server".toList, .char '/'] ++ v.map .char) := by
  rw [openUnits_echo, List.append_nil]
  refine .slot (.copy ?_ ?_)
  · intro t w other begins
    rw [only t w other] at begins
    exact absurd (List.cons_prefix_cons.mp begins).1 (by decide)
  · have token := Scans.token bound (fun t w other _ => by rw [only t w other]) .nil
    rwa [List.append_nil, List.append_nil] at token

theorem inUse_echo {t : List Char} (used : Template.InUse [echoRule] .url t) :
    t = '<' :: "key>".toList := by
  obtain ⟨r, mem, _, rfl⟩ := used
  cases List.mem_singleton.mp mem
  decide +kernel

theorem inert_echo : Inert (echoContext "https://x.test" "<key>") [echoRule] (.url, echoUrl) where
  tokens := by
    intro t used
    rw [inUse_echo used, openUnits_echo]
    exact Template.native_of_once (by decide +kernel) (by decide +kernel) (by simp)
  placeholders := by
    intro rest scan name _
    have taken : Scans (Erased [echoRule] .url) (openUnits echoUrl)
        ([.slot "server".toList, .char '/'] ++ [].map .char) :=
      scans_echo (fun t _ bound => inUse_echo bound.2)
        ⟨rfl, echoRule, List.mem_singleton_self _, Or.inl rfl, by decide +kernel⟩
    have definite : Binding.Definite (Erased [echoRule] .url) :=
      Template.definite_erased (by decide)
    rw [scan.unique_of_eq definite taken rfl]
    exact Template.native_of_not_mem (a := '<') List.mem_cons_self (by decide +kernel)

/-- The value of a rule that is the token of the rule is put in and left alone. -/
theorem verbatim_echo : ∃ (doc : Value) (f : Flow) (d : Step) (template : Request) (s : Session)
    (c : EndpointContext), Flow.ofDocument (some doc) = .ok f ∧ f.step? "list" = some d ∧
      d.template = some template ∧ (∀ part ∈ parts template, Inert c d.rules part) ∧
      Verbatim s c template d.rules ⟨"GET", "https://x.test/<key>", [], none, none⟩ := by
  have inert : ∀ part ∈ parts ⟨"GET", echoUrl, [], none, none⟩,
      Inert (echoContext "https://x.test" "<key>") [echoRule] part := by
    simp [parts, inert_echo]
  have found : echoFlow.step? "list" = some _ := rfl
  have rendered : renderRequest echoFlow { flow := echoFlow }
      (echoContext "https://x.test" "<key>") "list" =
      .ok (.ok ⟨"GET", "https://x.test/<key>", [], none, none⟩) := rfl
  refine ⟨_, echoFlow, _, _, { flow := echoFlow }, _, ofDocument_echo, found, rfl, inert, ?_⟩
  exact ((verbatim_of_inert ofDocument_echo found rfl).1 _ _ inert _).mp rendered

/-- The value of an endpoint is searched for tokens, and for placeholders after that: one value comes
out changed, and another one keeps the step from being rendered. -/
theorem echoed_twice : ∃ (doc : Value) (f : Flow) (d : Step) (template request : Request)
    (s : Session) (c b : EndpointContext), Flow.ofDocument (some doc) = .ok f ∧
      f.step? "list" = some d ∧ d.template = some template ∧
      renderRequest f s c "list" = .ok (.ok request) ∧ ¬Verbatim s c template d.rules request ∧
      (∀ name, (∃ v, c.Gives name v) ↔ ∃ v, b.Gives name v) ∧
      (∀ r v, Supplies s c r v ↔ Supplies s b r v) ∧
      ¬∃ request, renderRequest f s b "list" = .ok (.ok request) := by
  refine ⟨_, echoFlow, _, _, ⟨"GET", "https://x.test/k/k", [], none, none⟩, { flow := echoFlow },
    echoContext "https://x.test/<key>" "k", echoContext "https://x.test/<v1>" "k",
    ofDocument_echo, rfl, rfl, rfl, ?_, ?_, ?_, ?_⟩
  · rintro ⟨_, values, supplied, out⟩
    have value : ∀ v, Supplies { flow := echoFlow } (echoContext "https://x.test/<key>" "k")
        echoRule v → v = "k" := by
      intro v supplies
      cases resolve_ok_iff.mpr supplies
      rfl
    obtain ⟨⟨r, v⟩, _, ⟨rfl, supplies⟩, none, rfl⟩ := List.forall₂_cons_left_iff.mp supplied
    cases value v supplies
    cases List.forall₂_nil_left_iff.mp none
    -- Verbatim the token would be left in the address, and only the template's own one replaced.
    obtain ⟨ps, scan, same⟩ := out.url
    have own : Scans (Binds .url [(echoRule, "k")]) (openUnits echoUrl)
        ([.slot "server".toList, .char '/'] ++ ['k'].map .char) :=
      scans_echo (fun t v bound => inUse_echo (Template.exists_binds_iff.mp ⟨v, bound⟩))
        ⟨[], _, [], rfl, Or.inl rfl, by decide +kernel, by decide +kernel, by simp⟩
    rw [scan.unique_of_eq (Template.definite_binds (by decide)) own rfl] at same
    exact absurd same (by decide +kernel)
  · intro name
    simp only [← EndpointContext.endpoint?_eq_some_iff]
    by_cases server : name = "server"
    · subst server
      exact iff_of_true ⟨_, rfl⟩ ⟨_, rfl⟩
    · have absent : ∀ value : String, Record.get? [("server", value)] name = none := by
        simp [Record.get?, Ne.symm server]
      simp [EndpointContext.endpoint?, EndpointContext.default?, echoContext, absent]
  · intro r v
    rw [← resolve_ok_iff, ← resolve_ok_iff]
    rfl
  · rintro ⟨request, rendered⟩
    cases rendered

end

end Session

end Walkthrough
