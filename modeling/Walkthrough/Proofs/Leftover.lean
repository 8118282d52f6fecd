import Walkthrough.Proofs.Taking
import Walkthrough.Proofs.Words

/-!
# Placeholders that are left

A placeholder that no token covers is sought in the text from which the tokens are taken out. So the
one that is reported stands alone in the text (`Template.Alone`), or it only comes about when a token
between its units is taken out (`Template.Joined`): `Session.unbound_alone_or_joined`. In a request
that is rendered every placeholder of the template has been replaced, in all parts of it
(`Session.cleared_of_rendered`); the names of headers are no such part.
-/

namespace Walkthrough

theorem Text.split_of_ascii {cs : List Char} (ascii : ∀ a ∈ cs, a.toNat < 0x80) :
    Text.split cs = cs := by
  induction cs with
  | nil => rfl
  | cons a cs ih =>
    obtain ⟨first, others⟩ := List.forall_mem_cons.mp ascii
    have single : Text.unitsOf a = 1 := by
      rw [Text.unitsOf, if_pos]
      simp only [Bool.or_eq_true, decide_eq_true_eq]
      omega
    rw [Text.split, if_pos single, ih others]

namespace Template

variable {c : EndpointContext} {f : Form} {scope : Scope} {rules : List Rule}
  {values : List (Rule × String)} {tokens : List Char → Prop} {ps : List Piece} {a : Char}
  {cs rest name before after w : List Char} {text mid out : String}

/-! ## Placeholders in a filled text -/

theorem filled_ofList (split : Splits endpointForm cs ps) :
    Filled c (String.ofList cs) mid ↔ ∃ filled, Fills c ps filled ∧ mid = String.ofList filled := by
  unfold Filled
  rw [String.toList_ofList]
  constructor
  · rintro ⟨qs, filled, other, fills, rfl⟩
    cases other.unique endpointForm_bracketed split
    exact ⟨filled, fills, rfl⟩
  · rintro ⟨filled, fills, rfl⟩
    exact ⟨ps, filled, split, fills, rfl⟩

theorem exists_splits (cs : List Char) : ∃ ps, Splits endpointForm cs ps :=
  ⟨_, endpointForm_bracketed.splits_iff.mpr rfl⟩

/-- Two texts are filled one by one when no endpoint can stand across their border. -/
theorem Filled.append (filled : Filled c (String.ofList (cs ++ a :: rest)) mid)
    (stops : endpointForm.Stops a) : ∃ x y, mid = x ++ y ∧ Filled c (String.ofList cs) x ∧
      Filled c (String.ofList (a :: rest)) y := by
  obtain ⟨ps, front⟩ := exists_splits cs
  obtain ⟨qs, back⟩ := exists_splits (a :: rest)
  obtain ⟨_, fills, rfl⟩ := (filled_ofList (front.append stops back)).mp filled
  obtain ⟨first, second, rfl, fillsFront, fillsBack⟩ := fills_append_iff.mp fills
  exact ⟨String.ofList first, String.ofList second, String.ofList_append,
    (filled_ofList front).mpr ⟨first, fillsFront, rfl⟩,
    (filled_ofList back).mpr ⟨second, fillsBack, rfl⟩⟩

theorem Filled.slot (filled : Filled c (String.ofList (endpointForm.write name ++ after)) mid)
    (named : endpointForm.IsName name) : ∃ v y, mid = v ++ y ∧ c.Gives (String.ofList name) v ∧
      Filled c (String.ofList after) y := by
  obtain ⟨qs, back⟩ := exists_splits after
  obtain ⟨_, fills, rfl⟩ := (filled_ofList (.slot named back)).mp filled
  cases fills with
  | @slot _ v _ cs given later =>
    exact ⟨v, String.ofList cs, by simp [String.ofList_append], given,
      (filled_ofList back).mpr ⟨cs, later, rfl⟩⟩

theorem Filled.chars (filled : Filled c (String.ofList (w ++ after)) mid)
    (plain : ∀ a ∈ w, a ≠ endpointForm.opening) :
    ∃ y, mid = String.ofList w ++ y ∧ Filled c (String.ofList after) y := by
  obtain ⟨qs, back⟩ := exists_splits after
  obtain ⟨_, fills, rfl⟩ := (filled_ofList (back.chars plain)).mp filled
  obtain ⟨first, second, rfl, chars, fillsBack⟩ := fills_append_iff.mp fills
  cases fills_chars_iff.mp chars
  exact ⟨String.ofList second, String.ofList_append,
    (filled_ofList back).mpr ⟨second, fillsBack, rfl⟩⟩

/-- An endpoint is replaced by its value, wherever it stands in the text. -/
theorem Filled.endpoint (filled : Filled c text mid) (named : endpointForm.IsName name)
    (same : text.toList = before ++ (endpointForm.write name ++ after)) :
    ∃ x v y, mid = x ++ v ++ y ∧ Filled c (String.ofList before) x ∧
      c.Gives (String.ofList name) v ∧ Filled c (String.ofList after) y := by
  rw [← String.ofList_toList (s := text), same] at filled
  obtain ⟨x, z, rfl, front, rest⟩ := filled.append ⟨endpointForm_bracketed.opening, by decide⟩
  have behind : Filled c (String.ofList (endpointForm.write name ++ after)) z := rest
  obtain ⟨v, y, rfl, given, back⟩ := behind.slot named
  exact ⟨x, v, y, by rw [String.append_assoc], front, given, back⟩

theorem tokenForm_ascii (h : tokenForm.isFirst a = true ∨ tokenForm.isNext a = true) :
    a.toNat < 0x80 := by
  simp only [tokenForm, Bool.or_eq_true, beq_iff_eq] at h
  rcases h with letterOrDigit | ((word | rfl) | rfl) | rfl
  · exact Words.toNat_lt_of_isWordChar (by simp [Text.isWordChar, letterOrDigit])
  · exact Words.toNat_lt_of_isWordChar word
  · decide
  · decide
  · decide

/-- A placeholder of a token is of ASCII and opens no endpoint. -/
theorem tokenForm_plain (named : tokenForm.IsName name) (mem : a ∈ tokenForm.write name) :
    a ≠ endpointForm.opening ∧ a.toNat < 0x80 := by
  rcases List.mem_cons.mp mem with rfl | later
  · exact ⟨by decide, by decide⟩
  · rcases List.mem_append.mp later with inside | last
    · refine ⟨?_, tokenForm_ascii (named.of_mem inside)⟩
      rintro rfl
      exact absurd (named.of_mem inside) (by decide)
    · rw [List.mem_singleton.mp last]
      exact ⟨by decide, by decide⟩

/-- A placeholder of a token stays where it stands. -/
theorem Filled.placeholder (filled : Filled c text mid) (named : tokenForm.IsName name)
    (same : text.toList = before ++ (tokenForm.write name ++ after)) :
    ∃ x y, mid = x ++ String.ofList (tokenForm.write name) ++ y ∧
      Filled c (String.ofList before) x ∧ Filled c (String.ofList after) y := by
  rw [← String.ofList_toList (s := text), same] at filled
  obtain ⟨x, z, rfl, front, rest⟩ := filled.append ⟨by decide, by decide⟩
  have plain : ∀ a ∈ tokenForm.write name, a ≠ endpointForm.opening :=
    fun a mem => (tokenForm_plain named mem).1
  have behind : Filled c (String.ofList (tokenForm.write name ++ after)) z := rest
  obtain ⟨y, rfl, back⟩ := behind.chars plain
  exact ⟨x, y, by rw [String.append_assoc], front, back⟩

theorem unitsOf_append (x y : String) : unitsOf (x ++ y) = unitsOf x ++ unitsOf y := by
  simp [unitsOf, Text.split_append]

theorem unitsOf_write (named : tokenForm.IsName name) :
    unitsOf (String.ofList (tokenForm.write name)) = tokenForm.write name := by
  rw [unitsOf, String.toList_ofList]
  exact Text.split_of_ascii fun a mem => (tokenForm_plain named mem).2

/-! ## Reported placeholders -/

/-- The units `w` stand in the text where no token is taken out, and a token in use that stands
across them begins inside of one that is. -/
def Alone (tokens : List Char → Prop) (cs w : List Char) : Prop :=
  ∃ before after ps, cs = before ++ (w ++ after) ∧ Takes tokens cs ps ∧
    ¬Touched ps before.length w.length ∧
      ∀ front t back, tokens t → cs = front ++ (t ++ back) → Inside ps front.length ∨
        front.length + t.length ≤ before.length ∨ before.length + w.length ≤ front.length

/-- The placeholder comes about when the tokens are taken out, since one of them stands between its
units. -/
def Joined (tokens : List Char → Prop) (cs name : List Char) : Prop :=
  ∃ front inner back, Takes tokens cs
    (front ++ .char tokenForm.opening :: (inner ++ .char tokenForm.closing :: back)) ∧
      residue inner = name ∧ ∃ t, .slot t ∈ inner

/-- A unit that is left is a piece of its own. -/
theorem exists_of_residue_eq (left : residue ps = before ++ a :: after) :
    ∃ front back, ps = front ++ .char a :: back ∧ residue front = before ∧ residue back = after := by
  induction ps generalizing before with
  | nil => simp [residue] at left
  | cons p ps ih =>
    cases p with
    | slot t =>
      obtain ⟨front, back, rfl, rfl, rfl⟩ := ih left
      exact ⟨.slot t :: front, back, rfl, rfl, rfl⟩
    | char b =>
      cases before with
      | nil =>
        cases left
        exact ⟨[], ps, rfl, rfl, rfl⟩
      | cons d before =>
        obtain ⟨rfl, later⟩ := List.cons_eq_cons.mp left
        obtain ⟨front, back, rfl, rfl, rfl⟩ := ih later
        exact ⟨.char b :: front, back, rfl, rfl, rfl⟩

/-- Pieces without slots are the units that are left of them. -/
theorem slot_mem_or_eq_chars (ps : List Piece) :
    (∃ t, .slot t ∈ ps) ∨ ps = (residue ps).map .char := by
  induction ps with
  | nil => exact Or.inr rfl
  | cons p ps ih =>
    cases p with
    | slot t => exact Or.inl ⟨t, List.mem_cons_self⟩
    | char a =>
      rcases ih with ⟨t, mem⟩ | chars
      · exact Or.inl ⟨t, List.mem_cons_of_mem _ mem⟩
      · right
        nth_rewrite 1 [chars]
        rfl

theorem Splits.slot_infix (split : Splits f cs ps) {slot : String}
    (mem : slot ∈ ps.filterMap Piece.slot?) :
    f.IsName slot.toList ∧ f.write slot.toList <:+: cs := by
  induction split with
  | nil => cases mem
  | @slot name rest ps named _ ih =>
    rw [slots_slot, List.mem_cons] at mem
    rcases mem with rfl | later
    · rw [String.toList_ofList]
      exact ⟨named, (List.prefix_append _ rest).isInfix⟩
    · obtain ⟨namedToo, inside⟩ := ih later
      exact ⟨namedToo, inside.trans (List.suffix_append _ rest).isInfix⟩
  | char _ _ ih =>
    obtain ⟨named, inside⟩ := ih mem
    exact ⟨named, inside.trans (List.suffix_cons _ _).isInfix⟩

/-- What the program searches for placeholders is the residue. -/
theorem Takes.eq_residue (takes : Takes (InUse rules scope) cs ps)
    (filled : ∀ r ∈ rules, r.token ≠ "") {units : List Char}
    (erased : Rewrites (Erased rules scope) cs units) : units = residue ps :=
  erased.unique_of_eq (definite_erased filled)
    (takes.rewrites (fun _ used => ⟨rfl, used⟩) fun _ _ bound => bound.2) rfl

theorem inUse_ne_nil (filled : ∀ r ∈ rules, r.token ≠ "") :
    ∀ t, InUse rules scope t → t ≠ [] := by
  rintro t ⟨r, mem, _, rfl⟩
  exact unitsOf_ne_nil (filled r mem)

theorem exists_takes (filled : ∀ r ∈ rules, r.token ≠ "") (scope : Scope) (cs : List Char) :
    ∃ ps, Takes (InUse rules scope) cs ps := by
  have definite : Binding.Definite (Erased rules scope) := definite_erased filled
  obtain ⟨_, rewrites⟩ := exists_rewrites definite.filled cs
  have taken := rewrites.exists_takes
  simpa [Erased] using taken

/-- A placeholder in the text without its tokens stands in the text itself, clear of them, or it goes
around one. -/
theorem Takes.alone_or_joined (takes : Takes tokens cs ps) (filled : ∀ t, tokens t → t ≠ [])
    (left : tokenForm.write name <:+: residue ps) :
    Alone tokens cs (tokenForm.write name) ∨ Joined tokens cs name := by
  obtain ⟨before, after, same⟩ := left
  have begins : residue ps =
      before ++ tokenForm.opening :: (name ++ tokenForm.closing :: after) := by
    rw [← same]
    simp [Form.write]
  obtain ⟨front, later, rfl, _, ends⟩ := exists_of_residue_eq begins
  obtain ⟨inner, back, rfl, rfl, _⟩ := exists_of_residue_eq ends
  rcases slot_mem_or_eq_chars inner with between | chars
  · exact Or.inr ⟨front, inner, back, takes, rfl, between⟩
  · left
    have own : front ++ .char tokenForm.opening :: (inner ++ .char tokenForm.closing :: back) =
        front ++ ((tokenForm.write (residue inner)).map .char ++ back) := by
      rw [chars]
      simp [Form.write]
    rw [own] at takes
    refine ⟨source front, source back, _, by simp [← takes.source_eq], takes, not_touched, ?_⟩
    intro front' t back' used stands
    exact takes.apart filled not_touched used stands

theorem Leaves.alone_or_joined (filled : ∀ e ∈ values, e.1.token ≠ "") {slot : String}
    (leaves : Leaves values scope text slot) : tokenForm.IsName slot.toList ∧
      (Alone (InUse (values.map (·.1)) scope) (unitsOf text) (tokenForm.write slot.toList) ∨
        Joined (InUse (values.map (·.1)) scope) (unitsOf text) slot.toList) := by
  have known : ∀ r ∈ values.map (·.1), r.token ≠ "" := by simpa using filled
  obtain ⟨ps, takes⟩ := exists_takes known scope (unitsOf text)
  obtain ⟨units, qs, erased, split, first⟩ := leaves
  rw [blank_binds] at erased
  cases takes.eq_residue known erased
  obtain ⟨named, left⟩ := split.slot_infix (List.mem_of_head? first)
  exact ⟨named, takes.alone_or_joined (inUse_ne_nil known) left⟩

/-! ## Replaced placeholders -/

/-- The text comes to `out`: it is filled to `mid`, tokens are taken out of that, and values come
into the slots. Each endpoint that stands in the text has been filled in there, and each placeholder
of a token that stands in it is touched there by a token that is taken. -/
structure Clearing (c : EndpointContext) (values : List (Rule × String)) (scope : Scope)
    (text out mid : String) (ps : List Piece) (V : List Char → List Char) : Prop where
  filled : Filled c text mid
  takes : Takes (InUse (values.map (·.1)) scope) (unitsOf mid) ps
  bound : ∀ t, InUse (values.map (·.1)) scope t → Binds scope values t (V t)
  out : out = String.ofList (Text.join (fillUnits V ps))
  endpoints : ∀ before name after, endpointForm.IsName name →
    text.toList = before ++ (endpointForm.write name ++ after) →
      ∃ x v y, mid = x ++ v ++ y ∧ Filled c (String.ofList before) x ∧
        c.Gives (String.ofList name) v ∧ Filled c (String.ofList after) y
  placeholders : ∀ before name after, tokenForm.IsName name →
    text.toList = before ++ (tokenForm.write name ++ after) →
      ∃ x y, mid = x ++ String.ofList (tokenForm.write name) ++ y ∧
        Filled c (String.ofList before) x ∧ Filled c (String.ofList after) y ∧
          Touched ps (unitsOf x).length (tokenForm.write name).length

/-- Every endpoint and every placeholder of the text has been replaced. -/
def Cleared (c : EndpointContext) (values : List (Rule × String)) (scope : Scope)
    (text out : String) : Prop :=
  ∃ mid ps V, Clearing c values scope text out mid ps V

theorem cleared_of_rewritten (filled : ∀ e ∈ values, e.1.token ≠ "") (fills : Filled c text mid)
    (free : ∀ name, ¬Leaves values scope mid name) (rewritten : Rewritten values scope mid out) :
    Cleared c values scope text out := by
  have known : ∀ r ∈ values.map (·.1), r.token ≠ "" := by simpa using filled
  obtain ⟨ps, takes⟩ := exists_takes known scope (unitsOf mid)
  obtain ⟨V, given⟩ : ∃ V : List Char → List Char,
      ∀ t, InUse (values.map (·.1)) scope t → Binds scope values t (V t) := by
    have each : ∀ t, InUse (values.map (·.1)) scope t → ∃ v, Binds scope values t v :=
      fun _ => exists_binds_iff.mpr
    choose! V given using each
    exact ⟨V, given⟩
  refine ⟨mid, ps, V, fills, takes, given, ?_, fun _ _ _ named same => fills.endpoint named same, ?_⟩
  · obtain ⟨units, rewrites, rfl⟩ := rewritten
    have filledIn := takes.rewrites given fun t v bound => exists_binds_iff.mp ⟨v, bound⟩
    rw [rewrites.unique_of_eq (definite_binds filled) filledIn rfl]
  · intro before name after named same
    obtain ⟨x, y, rfl, front, back⟩ := fills.placeholder named same
    refine ⟨x, y, rfl, front, back, ?_⟩
    have stands : unitsOf (x ++ String.ofList (tokenForm.write name) ++ y) =
        unitsOf x ++ (tokenForm.write name ++ unitsOf y) := by
      rw [unitsOf_append, unitsOf_append, unitsOf_write named, List.append_assoc]
    -- Untouched units would be left, and the placeholder be reported.
    rcases takes.own_or_touched (inUse_ne_nil known) stands (List.cons_ne_nil _ _) with
      touched | ⟨front, back, rfl, _⟩
    · exact touched
    · obtain ⟨units, erased, none⟩ := (not_leaves_iff filled).mp free
      cases takes.eq_residue known erased
      refine absurd ?_ (none name named)
      exact ⟨residue front, residue back, by simp⟩

end Template

/-! ## Requests -/

namespace Session

open Template (Partwise Filled Leaves Rewritten Alone Joined Cleared InUse parts tokenForm unitsOf)

variable {s : Session} {c : EndpointContext} {template request : Request} {rules : List Rule}
  {doc : Option Value} {f : Flow} {id : String} {d : Step}

theorem unbound_of_render (tokens : ∀ r ∈ rules, r.token ≠ "") {token : String} {scope : Scope}
    (fails : Template.render c.endpoint? (s.resolve c) template rules =
      .error (.unboundPlaceholder token scope)) :
    ∃ filled values part name, Partwise (fun _ => Filled c) template filled ∧
      Supplied s c rules values ∧ part ∈ parts filled ∧ Leaves values part.1 part.2 name ∧
        token = "<" ++ name ++ ">" ∧ scope = part.1 := by
  cases filling : Template.traverse (fun _ => Template.fill c.endpoint?) template with
  | error fault =>
    rw [render_of_fill_error filling] at fails
    cases fails
    obtain ⟨_, _, _, _, other⟩ := fillAll_error_iff.mp filling
    cases other
  | ok filled =>
    cases resolving : s.resolveAll c rules with
    | error fault =>
      rw [render_of_resolve_error filling resolving] at fails
      cases fails
      obtain ⟨r, _, fault⟩ := resolveAll_error_iff.mp resolving
      exact absurd (of_resolve_error fault).1 (by simp [RenderFault.kind])
    | ok values =>
      have supplied := resolveAll_ok_iff.mp resolving
      rw [render_of_resolve filling resolving,
        substituteAll_error_iff (tokens_of_supplied supplied tokens)] at fails
      obtain ⟨part, name, first, leaves, same⟩ := fails
      cases same
      exact ⟨filled, values, part, name, fillAll_ok_iff.mp filling, supplied, first.mem, leaves,
        rfl, rfl⟩

/-- A placeholder that is reported as unbound stands alone in the part that is named, or it goes
around a token that is taken out of this part. -/
theorem unbound_alone_or_joined (compiled : Flow.ofDocument doc = .ok f)
    (found : f.step? id = some d) (automatic : d.template = some template) {fault : RenderFault}
    (fails : renderRequest f s c id = .ok (.error fault)) (kind : fault.kind = "UnboundPlaceholder") :
    ∃ filled part name, Partwise (fun _ => Filled c) template filled ∧ part ∈ parts filled ∧
      fault = .unboundPlaceholder (String.ofList (tokenForm.write name)) part.1 ∧
        tokenForm.IsName name ∧
          (Alone (InUse d.rules part.1) (unitsOf part.2) (tokenForm.write name) ∨
            Joined (InUse d.rules part.1) (unitsOf part.2) name) := by
  have tokens := token_ne_empty compiled found
  simp only [renderRequest, found, automatic, Except.ok.injEq] at fails
  cases fault with
  | unboundPlaceholder token scope =>
    obtain ⟨filled, values, part, name, fills, supplied, mem, leaves, rfl, rfl⟩ :=
      unbound_of_render tokens fails
    obtain ⟨named, place⟩ := leaves.alone_or_joined (tokens_of_supplied supplied tokens)
    rw [supplied.map_eq] at place
    have written : "<" ++ name ++ ">" = String.ofList (tokenForm.write name.toList) := by
      rw [← String.toList_inj]
      simp [Template.Form.write, tokenForm]
    exact ⟨filled, part, name.toList, fills, mem, by rw [written], named, place⟩
  | unresolvedEndpoint | unsetVariable | incompleteStep | missingField =>
    simp [RenderFault.kind] at kind

/-- A document with one step and a rule for `<key>`. -/
def keyDocument (url : String) (headers : List (String × Value)) : Value :=
  .mapping
    [("steps", .list [.mapping [("id", .text "list")]]),
      ("requests",
        .mapping [("list", .mapping [("url", .text url), ("headers", .mapping headers)])]),
      ("substitution_rules", .mapping [("list", .mapping [("<key>", .text "var.key")])])]

def keyStep (url : String) (headers : List Header) : Step :=
  ⟨"list", "list", "", [], [], [], some ⟨"GET", url, headers, none, none⟩, [echoRule]⟩

def keyFlow (url : String) (headers : List Header) : Flow :=
  { steps := [keyStep url headers], endpointDefaults := [], schedule := ["list"], warnings := [] }

/-- A placeholder next to a token that is taken out. -/
theorem unbound_next_to_token : ∃ (doc : Value) (f : Flow) (d : Step) (template : Request)
    (s : Session) (c : EndpointContext) (fault : RenderFault), Flow.ofDocument (some doc) = .ok f ∧
      f.step? "list" = some d ∧ d.template = some template ∧
      renderRequest f s c "list" = .ok (.error fault) ∧ fault.kind = "UnboundPlaceholder" ∧
      template.url = "<key><v1>" ∧
      ∃ filled part name, Partwise (fun _ => Filled c) template filled ∧ part ∈ parts filled ∧
        fault = .unboundPlaceholder (String.ofList (tokenForm.write name)) part.1 ∧
          tokenForm.IsName name ∧
            (Alone (InUse d.rules part.1) (unitsOf part.2) (tokenForm.write name) ∨
              Joined (InUse d.rules part.1) (unitsOf part.2) name) := by
  have compiled : Flow.ofDocument (some (keyDocument "<key><v1>" [])) =
      .ok (keyFlow "<key><v1>" []) := rfl
  have found : (keyFlow "<key><v1>" []).step? "list" = some (keyStep "<key><v1>" []) := rfl
  have fails : renderRequest (keyFlow "<key><v1>" []) { flow := keyFlow "<key><v1>" [] }
      (echoContext "https://x.test" "k") "list" =
      .ok (.error (.unboundPlaceholder "<v1>" .url)) := rfl
  exact ⟨_, _, _, _, _, _, _, compiled, found, rfl, fails, rfl, rfl,
    unbound_alone_or_joined compiled found rfl fails rfl⟩

/-- The token `<key>` stands between the units of a placeholder, which stands nowhere in the template. -/
theorem unbound_around_token : ∃ (doc : Value) (f : Flow) (d : Step) (template : Request)
    (s : Session) (c : EndpointContext) (fault : RenderFault), Flow.ofDocument (some doc) = .ok f ∧
      f.step? "list" = some d ∧ d.template = some template ∧
      renderRequest f s c "list" = .ok (.error fault) ∧ fault.kind = "UnboundPlaceholder" ∧
      ∀ filled, Partwise (fun _ => Filled c) template filled → ∀ part ∈ parts filled,
        ¬unitsOf fault.token <:+: unitsOf part.2 := by
  have compiled : Flow.ofDocument (some (keyDocument "/<v<key>1>" [])) =
      .ok (keyFlow "/<v<key>1>" []) := rfl
  have fails : renderRequest (keyFlow "/<v<key>1>" []) { flow := keyFlow "/<v<key>1>" [] }
      (echoContext "https://x.test" "k") "list" =
      .ok (.error (.unboundPlaceholder "<v1>" .url)) := rfl
  refine ⟨_, _, keyStep "/<v<key>1>" [], _, _, _, _, compiled, rfl, rfl, fails, rfl, ?_⟩
  intro filled fills
  have same : filled = ⟨"GET", "/<v<key>1>", [], none, none⟩ := by
    cases fillAll_ok_iff.mpr fills
    decide +kernel
  rw [same, Template.forall_parts_iff]
  refine ⟨?_, by simp, by simp, by simp⟩
  decide +kernel

/-- In a request that is rendered every placeholder of its template has been replaced; the names of
headers are left as they are. -/
theorem cleared_of_rendered (compiled : Flow.ofDocument doc = .ok f)
    (found : f.step? id = some d) (automatic : d.template = some template)
    (rendered : renderRequest f s c id = .ok (.ok request)) :
    ∃ values, Supplied s c d.rules values ∧ Partwise (Cleared c values) template request := by
  have tokens := token_ne_empty compiled found
  simp only [renderRequest, found, automatic, Except.ok.injEq] at rendered
  obtain ⟨values, supplied, changed⟩ := (render_ok_iff tokens).mp rendered
  have named := tokens_of_supplied supplied tokens
  refine ⟨values, supplied, changed.imp ?_⟩
  rintro scope text out ⟨mid, fills, free, rewritten⟩
  exact Template.cleared_of_rewritten named fills free rewritten

/-- An endpoint and the token behind it have been replaced. -/
theorem cleared_echo : ∃ (doc : Value) (f : Flow) (d : Step) (template request : Request)
    (s : Session) (c : EndpointContext), Flow.ofDocument (some doc) = .ok f ∧
      f.step? "list" = some d ∧ d.template = some template ∧ template.url = echoUrl ∧
      renderRequest f s c "list" = .ok (.ok request) ∧
      ∃ values, Supplied s c d.rules values ∧ Partwise (Cleared c values) template request := by
  have found : echoFlow.step? "list" = some _ := rfl
  have rendered : renderRequest echoFlow { flow := echoFlow } (echoContext "https://x.test" "k")
      "list" = .ok (.ok ⟨"GET", "https://x.test/k", [], none, none⟩) := rfl
  exact ⟨_, _, _, _, _, _, _, ofDocument_echo, found, rfl, rfl, rendered,
    cleared_of_rendered ofDocument_echo found rfl rendered⟩

/-- A token in the name of a header is sent as it is written, though a rule for headers has it. -/
theorem header_name_sent : ∃ (doc : Value) (f : Flow) (d : Step) (template request : Request)
    (s : Session) (c : EndpointContext), Flow.ofDocument (some doc) = .ok f ∧
      f.step? "list" = some d ∧ d.template = some template ∧
      renderRequest f s c "list" = .ok (.ok request) ∧
      InUse d.rules .headers (tokenForm.write "key".toList) ∧
      ∃ h ∈ template.headers, ∃ k ∈ request.headers, k.1 = h.1 ∧
        tokenForm.write "key".toList <:+: unitsOf h.1 := by
  have compiled : Flow.ofDocument (some (keyDocument "/list" [("X-<key>", .text "v")])) =
      .ok (keyFlow "/list" [("X-<key>", "v")]) := rfl
  have rendered : renderRequest (keyFlow "/list" [("X-<key>", "v")])
      { flow := keyFlow "/list" [("X-<key>", "v")] } (echoContext "https://x.test" "k") "list" =
      .ok (.ok ⟨"GET", "/list", [("X-<key>", "v")], none, none⟩) := rfl
  refine ⟨_, _, keyStep "/list" [("X-<key>", "v")], _, _, _, _, compiled, rfl, rfl, rendered, ?_, ?_⟩
  · exact ⟨echoRule, List.mem_singleton_self _, Or.inl rfl, by decide +kernel⟩
  · exact ⟨_, List.mem_singleton_self _, _, List.mem_singleton_self _, rfl, by decide +kernel⟩

end Session

end Walkthrough
