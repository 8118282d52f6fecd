import Walkthrough.Proofs.Graph
import Walkthrough.Proofs.Relabel
import Walkthrough.Proofs.Reorder

/-!
# Sections under other names

`Flow.Renames` says what it means to rename the steps of a document: wherever a section names a step,
as a key, in a list or in a reference, it gets its new name. Each section of the renamed document then
passes the same checks and gives what it gave before under the new names.

A name can be renamed to the name of another step, so a renaming is not injective on all names. What
is read is compared under an injective renaming of all names that agrees with it on the steps
(`Flow.Extends`).
-/

namespace Walkthrough

open Checks

/-! ## Renamed documents -/

namespace Value

/-- The value with its text changed, if it is one. -/
def onText (g : String → String) : Value → Value
  | text s => text (g s)
  | v => v

/-- The value with its items changed, if it is a list. -/
def onItems (g : Value → Value) : Value → Value
  | list items => list (items.map g)
  | v => v

/-- The value with its entries changed, if it is a mapping. -/
def onEntries (g : String × Value → String × Value) : Value → Value
  | mapping entries => mapping (entries.map g)
  | v => v

end Value

namespace Reference

/-- The reference with the step that it reads from renamed. -/
def rename (σ : String → String) : Reference → Reference
  | field step name => field (σ step) name
  | setting name => setting name

/-- A text with the step renamed that it refers to, if it is a reference. -/
def renameText (σ : String → String) (s : String) : String :=
  match read? s with
  | some reference => write (reference.rename σ)
  | none => s

end Reference

/-- The rule with the step renamed that it reads from, also where the reference is written. -/
def Rule.rename (σ : String → String) (r : Rule) : Rule :=
  { r with
    reference := r.reference.rename σ
    source := Reference.write (r.reference.rename σ) }

namespace Flow

/-- An item of the list of steps with its step renamed. -/
def renameItem (σ : String → String) : Value → Value :=
  Value.onEntries fun e => (e.1, if e.1 == "id" then e.2.onText σ else e.2)

/-- A section that is keyed by steps with its keys renamed. -/
def renameKeys (σ : String → String) : Value → Value :=
  Value.onEntries fun e => (σ e.1, e.2)

/-- The section `dependencies` with its keys and the steps that it lists renamed. -/
def renameLinks (σ : String → String) : Value → Value :=
  Value.onEntries fun e => (σ e.1, e.2.onItems (Value.onText σ))

/-- The rules of a token, or of the tokens of a part of the request, with their references renamed. -/
def renameRule (σ : String → String) (v : Value) : Value :=
  let source := Value.onText (Reference.renameText σ)
  source (v.onEntries fun e => (e.1, source e.2))

/-- The section `substitution_rules` with its keys and the references in it renamed. -/
def renameRules (σ : String → String) : Value → Value :=
  Value.onEntries fun e => (σ e.1, e.2.onEntries fun r => (r.1, renameRule σ r.2))

/-- The second document is the first one with its steps renamed. The entries of the sections that are
keyed by steps may stand in another order, since their names are others. -/
structure Renames (σ : String → String) (doc doc' : Record Value) : Prop where
  steps : doc'.get? "steps" = (doc.get? "steps").map (Value.onItems (renameItem σ))
  dependencies :
    Shuffled ((doc.get? "dependencies").map (renameLinks σ)) (doc'.get? "dependencies")
  commands :
    Shuffled ((doc.get? "curl_templates").map (renameKeys σ)) (doc'.get? "curl_templates")
  requests : Shuffled ((doc.get? "requests").map (renameKeys σ)) (doc'.get? "requests")
  rules :
    Shuffled ((doc.get? "substitution_rules").map (renameRules σ)) (doc'.get? "substitution_rules")
  endpointDefaults : doc'.get? "endpoint_defaults" = doc.get? "endpoint_defaults"
  endpoints : doc'.get? "endpoints" = doc.get? "endpoints"

/-- The title that an item of the list of steps gives. -/
def titleOf (item : Value) : Option String :=
  (item.entries?.bind (Record.get? · "title")).bind Value.text?

/-- The titles that a document gives, by step; a step without one is called by its name. -/
def titlesOf (steps : Option Value) : List (Option String) :=
  match steps with
  | some (.list items) => items.map titleOf
  | _ => []

/-!
## Checks that do not depend on the name

These checks are told the name of the step for their faults alone.
-/

section
variable {what : String} {id : String} {v : Option Value}

theorem textsOf_elsewhere {texts : List String} (h : textsOf what v = .ok texts) (other : String) :
    textsOf other v = .ok texts := by
  unfold textsOf at h ⊢
  split at h
  · exact h
  · exact h
  · split at h
    next => exact h
    next => cases h

theorem manualOf_elsewhere {b : Bool} (h : manualOf id v = .ok b) (other : String) :
    manualOf other v = .ok b := by
  unfold manualOf at h ⊢
  split at h
  · exact h
  · exact h
  · cases h

theorem headersOf_elsewhere {headers : List Header} (h : headersOf id v = .ok headers)
    (other : String) : headersOf other v = .ok headers := by
  unfold headersOf at h ⊢
  split at h
  · exact h
  · exact h
  · rw [mapM_ok_iff] at h ⊢
    refine h.imp fun e x made => ?_
    split at made
    next => exact made
    next => cases made
  · cases h

theorem credentialsOf_elsewhere {credentials : Option Credentials}
    (h : credentialsOf id v = .ok credentials) (other : String) :
    credentialsOf other v = .ok credentials := by
  unfold credentialsOf at h ⊢
  split at h
  · exact h
  · exact h
  · split at h
    next => exact h
    next => cases h
  · cases h

theorem requestOf_elsewhere {v : Value} {r : Request} (h : requestOf id v = .ok r)
    (other : String) : requestOf other v = .ok r := by
  unfold requestOf at h ⊢
  split at h
  · cases h
  next entries mapping =>
    split at h
    · cases h
    next url found =>
      split at h
      · cases h
      next filled =>
        obtain ⟨headers, headed, h⟩ := bind_ok_iff.mp h
        obtain ⟨body, bodied, h⟩ := bind_ok_iff.mp h
        obtain ⟨credentials, signed, h⟩ := bind_ok_iff.mp h
        simp only [filled, headersOf_elsewhere headed other, bodied,
          credentialsOf_elsewhere signed other]
        exact h

end

/-! ## Sections under other names -/

/-- A relabeling that gives the names of some steps what a renaming gives them. -/
structure Extends (ids : List String) (σ τ : String → String) : Prop where
  injective : Function.Injective τ
  same : ∀ id ∈ ids, σ id = τ id
  /-- The new names are names that a step can have and that references can tell. -/
  proper : ∀ id ∈ ids, Text.allBlank (τ id) = false ∧ '.' ∉ (τ id).toList

section
variable {what : String} {ids : List String} {σ τ : String → String} {v v' : Option Value}

theorem Extends.map_eq (ext : Extends ids σ τ) {names : List String} (sub : ∀ x ∈ names, x ∈ ids) :
    names.map σ = names.map τ :=
  List.map_congr_left fun x mem => ext.same x (sub x mem)

theorem known_rename (ext : Extends ids σ τ) {place : Place} {id : String}
    (h : known ids place id = .ok ()) (other : Place) :
    known (ids.map τ) other (σ id) = .ok () := by
  have mem := known_ok_iff.mp h
  rw [known_ok_iff, ext.same id mem]
  exact List.mem_map_of_mem mem

theorem get?_map_values {α β : Type} (g : String → α → β) (r : Record α) (name : String) :
    Record.get? (r.map fun e => (e.1, g e.1 e.2)) name = (r.get? name).map (g name) := by
  change Ledger.get? _ name = (Ledger.get? r name).map (g name)
  induction r with
  | nil => rfl
  | cons e r ih =>
    rw [List.map_cons, Ledger.get?_cons, Ledger.get?_cons, ih]
    by_cases same : e.1 = name
    · subst same
      simp
    · simp [same]

theorem text?_onText (g : String → String) (v : Value) : (v.onText g).text? = v.text?.map g := by
  cases v <;> rfl

theorem texts?_onItems {v : Value} {texts : List String} (h : v.texts? = some texts) :
    (v.onItems (Value.onText σ)).texts? = some (texts.map σ) := by
  cases v with
  | list items =>
    change (items.map (Value.onText σ)).mapM Value.text? = _
    change items.mapM Value.text? = _ at h
    induction items generalizing texts with
    | nil =>
      cases h
      rfl
    | cons item items ih =>
      rw [List.mapM_cons, Option.bind_eq_bind, Option.bind_eq_some_iff] at h
      obtain ⟨text, here, h⟩ := h
      rw [Option.bind_eq_bind, Option.bind_eq_some_iff] at h
      obtain ⟨others, later, h⟩ := h
      cases h
      rw [List.map_cons, List.mapM_cons, text?_onText, here, ih later]
      rfl
  | _ => cases h

theorem textsOf_some_ok_iff {v : Value} {texts : List String} :
    textsOf what (some v) = .ok texts ↔ v = .null ∧ texts = [] ∨ v.texts? = some texts := by
  cases v with
  | null => simp [textsOf, Value.texts?, eq_comm]
  | list items => cases found : (Value.list items).texts? <;> simp [textsOf, found]
  | _ => simp [textsOf, Value.texts?]

theorem textsOf_onItems {v : Value} {texts : List String} (h : textsOf what (some v) = .ok texts)
    (other : String) : textsOf other (some (v.onItems (Value.onText σ))) = .ok (texts.map σ) := by
  rw [textsOf_some_ok_iff] at h ⊢
  rcases h with ⟨rfl, rfl⟩ | found
  · exact Or.inl ⟨rfl, rfl⟩
  · exact Or.inr (texts?_onItems found)

theorem entriesOf_onEntries {entries : Record Value} (h : entriesOf what v = .ok entries)
    (g : String × Value → String × Value) (other : String) :
    entriesOf other (v.map (Value.onEntries g)) = .ok (entries.map g) := by
  unfold entriesOf at h
  split at h
  · cases h
    rfl
  · cases h
    rfl
  next v _ =>
    cases v with
    | mapping entries' =>
      cases h
      rfl
    | _ => cases h

/-- When each entry passes under its new name, all of them do. -/
theorem mapM_map_ok {α β γ δ : Type} {f : α → Except Fault β} {f' : γ → Except Fault δ} {g : α → γ}
    {k : β → δ} (each : ∀ a b, f a = .ok b → f' (g a) = .ok (k b)) {items : List α} {out : List β}
    (h : items.mapM f = .ok out) : (items.map g).mapM f' = .ok (out.map k) := by
  rw [mapM_ok_iff] at h ⊢
  rw [List.forall₂_map_left_iff, List.forall₂_map_right_iff]
  exact h.imp each

/-! ### Steps -/

def Declaration.rename (τ : String → String) (title : Option String) (d : Declaration) :
    Declaration :=
  { d with id := τ d.id, title := title.getD (τ d.id) }

theorem entries?_renameItem {item : Value} {s : Record Value} (h : item.entries? = some s) :
    ∃ s', (renameItem σ item).entries? = some s' ∧
      (s'.get? "id").bind Value.text? = ((s.get? "id").bind Value.text?).map σ ∧
        ∀ name, name ≠ "id" → s'.get? name = s.get? name := by
  cases item with
  | mapping entries =>
    cases h
    have get := get?_map_values (fun key (v : Value) => if key == "id" then v.onText σ else v) s
    refine ⟨_, rfl, ?_, fun name other => ?_⟩
    · rw [get]
      cases s.get? "id" with
      | none => rfl
      | some v => exact text?_onText σ v
    · rw [get, beq_eq_false_iff_ne.mpr other]
      exact Option.map_id'
  | _ => cases h

theorem declarationOf_rename {seen : List String} {index : Nat} {item : Value} {d : Declaration}
    (ext : Extends ids σ τ) (mem : d.id ∈ ids) (h : declarationOf seen index item = .ok d) :
    declarationOf (seen.map τ) index (renameItem σ item) = .ok (d.rename τ (titleOf item)) := by
  obtain ⟨s, mapping, named, visible, fresh, marked, kept, completed, title, description⟩ :=
    declarationOf_ok_iff.mp h
  obtain ⟨s', mapping', id, others⟩ := entries?_renameItem (σ := σ) mapping
  refine declarationOf_ok_iff.mpr ⟨s', mapping', ?_, (ext.proper d.id mem).1, ?_, ?_, ?_, ?_, ?_, ?_⟩
  · rw [id, named, Option.map_some, ext.same d.id mem]
    rfl
  · exact fun old => fresh ((List.mem_map_of_injective ext.injective).mp old)
  · rw [others _ (by decide)]
    exact manualOf_elsewhere marked _
  · rw [others _ (by decide)]
    exact textsOf_elsewhere kept _
  · rw [others _ (by decide)]
    exact textsOf_elsewhere completed _
  · rw [others _ (by decide)]
    simp only [Declaration.rename, titleOf, mapping, Option.bind_some]
  · rw [others _ (by decide)]
    exact description

theorem declarationsFrom_rename {seen : List String} {index : Nat} {items : List Value}
    {ds : List Declaration} (ext : Extends ids σ τ) (sub : ∀ d ∈ ds, d.id ∈ ids)
    (h : declarationsFrom seen index items = .ok ds) :
    declarationsFrom (seen.map τ) index (items.map (renameItem σ)) =
      .ok (List.zipWith (Declaration.rename τ) (items.map titleOf) ds) := by
  induction items generalizing seen index ds with
  | nil =>
    cases h
    rfl
  | cons item items ih =>
    obtain ⟨d, first, h⟩ := bind_ok_iff.mp h
    obtain ⟨others, rest, h⟩ := bind_ok_iff.mp h
    cases h
    obtain ⟨here, later⟩ := List.forall_mem_cons.mp sub
    have next := ih later rest
    rw [List.map_append, List.map_singleton] at next
    rw [List.map_cons, declarationsFrom, declarationOf_rename ext here first, ok_bind]
    simp only [Declaration.rename] at next ⊢
    rw [next]
    rfl

theorem declarationsOf_rename {ds : List Declaration} (ext : Extends ids σ τ)
    (sub : ∀ d ∈ ds, d.id ∈ ids) (h : declarationsOf v = .ok ds) :
    declarationsOf (v.map (Value.onItems (renameItem σ))) =
      .ok (List.zipWith (Declaration.rename τ) (titlesOf v) ds) := by
  unfold declarationsOf at h
  split at h
  · exact declarationsFrom_rename ext sub h
  · cases h

/-! ### Dependencies -/

theorem linkOf_rename (ext : Extends ids σ τ) {e : String × Value} {l : String × List String}
    (h : linkOf ids e = .ok l) :
    linkOf (ids.map τ) (σ e.1, e.2.onItems (Value.onText σ)) = .ok (Prod.map τ (List.map τ) l) := by
  obtain ⟨_, declared, h⟩ := bind_ok_iff.mp h
  obtain ⟨texts, listed, h⟩ := bind_ok_iff.mp h
  obtain ⟨_, each, h⟩ := bind_ok_iff.mp h
  cases h
  have sub : ∀ x ∈ texts, x ∈ ids := fun x mem => known_ok_iff.mp (forM_ok_iff.mp each x mem)
  refine bind_ok_iff.mpr ⟨_, known_rename ext declared _, ?_⟩
  refine bind_ok_iff.mpr ⟨_, textsOf_onItems listed _, bind_ok_iff.mpr ⟨(), ?_, ?_⟩⟩
  · rw [forM_ok_iff]
    intro y mem
    obtain ⟨x, inTexts, rfl⟩ := List.mem_map.mp mem
    exact known_rename ext (forM_ok_iff.mp each x inTexts) _
  · rw [ext.map_eq sub, eraseDups_map ext.injective, ext.same e.1 (known_ok_iff.mp declared)]
    rfl

theorem linksOf_rename (ext : Extends ids σ τ) {links : Order.Links} (h : linksOf ids v = .ok links)
    (shuffled : Shuffled (v.map (renameLinks σ)) v') :
    ∃ links', linksOf (ids.map τ) v' = .ok links' ∧
      Reordered (links.map (Prod.map τ (List.map τ))) links' := by
  obtain ⟨entries, listed, made⟩ := bind_ok_iff.mp h
  exact shuffled.linksOf (bind_ok_iff.mpr ⟨_, entriesOf_onEntries listed _ _,
    mapM_map_ok (fun _ _ => linkOf_rename ext) made⟩)

/-! ### Templates -/

theorem commandOf_rename (ext : Extends ids σ τ) {e : String × String}
    {x : Option (String × Request)} (h : commandOf ids e = .ok x) :
    commandOf (ids.map τ) (σ e.1, e.2) = .ok (x.map (Prod.map τ id)) := by
  obtain ⟨_, declared, h⟩ := bind_ok_iff.mp h
  have same := ext.same e.1 (known_ok_iff.mp declared)
  unfold commandOf
  rw [known_rename ext declared _, ok_bind]
  split at h
  next blank =>
    cases h
    rw [if_pos blank]
    rfl
  next visible =>
    rw [if_neg visible]
    split at h
    next read =>
      cases h
      simp only [read, same]
      rfl
    next => cases h

theorem requestEntry_rename (ext : Extends ids σ τ) {e : String × Value} {x : String × Request}
    (h : requestEntry ids e = .ok x) :
    requestEntry (ids.map τ) (σ e.1, e.2) = .ok (Prod.map τ id x) := by
  obtain ⟨declared, read, named⟩ := requestEntry_ok_iff.mp h
  refine requestEntry_ok_iff.mpr ⟨known_rename ext declared _, requestOf_elsewhere read _, ?_⟩
  rw [Prod.map_fst, named, ext.same e.1 (known_ok_iff.mp declared)]

theorem textMapOf_rename {texts : Record String} (kept : σ Record.reserved = Record.reserved)
    (others : ∀ e ∈ texts, σ e.1 ≠ Record.reserved) (h : textMapOf what v = .ok texts) :
    textMapOf what (v.map (renameKeys σ)) = .ok (texts.map (Prod.map σ id)) := by
  obtain ⟨entries, listed, h⟩ := bind_ok_iff.mp h
  obtain ⟨all, read, h⟩ := bind_ok_iff.mp h
  cases h
  have each (e : String × Value) (x : String × String) (h : textEntry what e = .ok x) :
      textEntry what (σ e.1, e.2) = .ok (Prod.map σ id x) := by
    unfold textEntry at h ⊢
    cases found : e.2.text? with
    | none =>
      rw [found] at h
      cases h
    | some s =>
      rw [found] at h
      cases h
      rfl
  refine bind_ok_iff.mpr ⟨_, entriesOf_onEntries listed _ _, ?_⟩
  refine bind_ok_iff.mpr ⟨_, mapM_map_ok each read, ?_⟩
  -- The entry of the reserved name is left out before and after, and no other entry gets that name.
  rw [List.filter_map]
  refine congrArg (fun l => Except.ok (List.map (Prod.map σ id) l)) (List.filter_congr fun e mem => ?_)
  by_cases same : e.1 = Record.reserved
  · simp [same, kept]
  · have other := others e (List.mem_filter.mpr ⟨mem, by simpa using same⟩)
    rw [Function.comp_apply, Prod.map_fst, Bool.eq_iff_iff, bne_iff_ne, bne_iff_ne]
    exact iff_of_true other same

theorem foldlM_addRequest_rename (ext : Extends ids σ τ) (unreserved : Record.reserved ∉ ids)
    (unreserved' : Record.reserved ∉ ids.map τ) {entries : Record Value}
    {templates out : Ledger Request} (h : entries.foldlM (addRequest ids) templates = .ok out) :
    (entries.map fun e => (σ e.1, e.2)).foldlM (addRequest (ids.map τ))
      (templates.map (Prod.map τ id)) = .ok (out.map (Prod.map τ id)) := by
  obtain ⟨read, each, distinct, apart, rfl⟩ := (foldlM_addRequest_ok_iff unreserved).mp h
  have names (l : Ledger Request) : Ledger.names (l.map (Prod.map τ id)) = l.names.map τ := by
    simp only [Ledger.names, List.map_map]
    rfl
  refine (foldlM_addRequest_ok_iff unreserved').mpr
    ⟨_, mapM_map_ok (fun _ _ => requestEntry_rename ext) each, ?_, ?_, List.map_append⟩
  · rw [names]
    exact distinct.map ext.injective
  · rw [names, names]
    intro name mem old
    obtain ⟨x, inRead, rfl⟩ := List.mem_map.mp mem
    exact apart x inRead ((List.mem_map_of_injective ext.injective).mp old)

theorem templatesOf_rename {doc doc' : Record Value} (ext : Extends ids σ τ)
    (kept : σ Record.reserved = Record.reserved) (unreserved : Record.reserved ∉ ids)
    (unreserved' : Record.reserved ∉ ids.map τ) {templates : Ledger Request}
    (h : templatesOf ids doc = .ok templates) (renames : Renames σ doc doc') :
    ∃ templates', templatesOf (ids.map τ) doc' = .ok templates' ∧
      Reordered (templates.map (Prod.map τ id)) templates' := by
  obtain ⟨commands, written, h⟩ := bind_ok_iff.mp h
  obtain ⟨read, each, h⟩ := bind_ok_iff.mp h
  obtain ⟨entries, listed, h⟩ := bind_ok_iff.mp h
  -- Each command that is kept is checked to be about a declared step, so it is renamed with it.
  have others : ∀ e ∈ commands, σ e.1 ≠ Record.reserved := by
    intro e mem same
    obtain ⟨x, made⟩ := exists_mapM_ok_iff.mp ⟨_, each⟩ e mem
    obtain ⟨_, declared, _⟩ := bind_ok_iff.mp made
    have inIds := known_ok_iff.mp declared
    rw [ext.same e.1 inIds] at same
    exact unreserved' (same ▸ List.mem_map_of_mem inIds)
  obtain ⟨commands', written', moved⟩ :=
    renames.commands.textMapOf (textMapOf_rename kept others written)
  obtain ⟨read', each', moved⟩ := commands_reordered moved
    (mapM_map_ok (fun _ _ => commandOf_rename ext) each)
  obtain ⟨entries', listed', swapped⟩ :=
    renames.requests.entriesOf (entriesOf_onEntries listed _ _)
  have first : (read.map (Option.map (Prod.map τ id))).filterMap id =
      (read.filterMap id).map (Prod.map τ id) := by
    rw [List.filterMap_map, List.map_filterMap]
    rfl
  rw [first] at moved
  obtain ⟨templates', added, moved⟩ := foldlM_addRequest_reordered unreserved' swapped moved
    (foldlM_addRequest_rename ext unreserved unreserved' h)
  exact ⟨templates', bind_ok_iff.mpr ⟨_, written', bind_ok_iff.mpr ⟨_, each',
    bind_ok_iff.mpr ⟨_, listed', added⟩⟩⟩, moved⟩

/-! ### Rules -/

theorem ruleOf_rename (ext : Extends ids σ τ) {step : String} {scope : Option Scope}
    {e : String × Value} {r : Rule} (h : ruleOf ids step scope e = .ok r) (other : String) :
    ruleOf (ids.map τ) other scope (e.1, e.2.onText (Reference.renameText σ)) =
      .ok (r.rename τ) := by
  obtain ⟨token, written, read, declared, named, limited⟩ := ruleOf_ok_iff.mp h
  have same : r.reference.rename σ = r.reference.rename τ := by
    cases source : r.reference with
    | field id name => exact congrArg (Reference.field · name) (ext.same id (declared id name source))
    | setting name => rfl
  refine ruleOf_ok_iff.mpr ⟨token, ?_, ?_, ?_, named, limited⟩
  · rw [text?_onText, written, Option.map_some, Reference.renameText, read]
    exact congrArg (fun reference => some (Reference.write reference)) same
  · change Reference.read? (Reference.write (r.reference.rename τ)) = some (r.reference.rename τ)
    cases source : r.reference with
    | field id name =>
      -- The new name ends where the old one did, at the first dot.
      obtain ⟨visible, whole⟩ := ext.proper id (declared id name source)
      rw [source] at read
      refine Reference.read?_field (fun empty => ?_) whole (Reference.isTail_of_read? read)
      rw [empty] at visible
      cases visible
    | setting name =>
      rw [source] at read
      rw [Reference.rename, Reference.write_of_read? read, read]
  · intro x name reads
    cases source : r.reference with
    | field id field =>
      simp only [Rule.rename, source, Reference.rename, Reference.field.injEq] at reads
      exact reads.1 ▸ List.mem_map_of_mem (declared id field source)
    | setting field =>
      simp only [Rule.rename, source, Reference.rename] at reads
      cases reads

theorem rulesOfEntry_rename (ext : Extends ids σ τ) {step : String} {e : String × Value}
    {rules : List Rule} (h : rulesOfEntry ids step e = .ok rules) (other : String) :
    rulesOfEntry (ids.map τ) other (e.1, renameRule σ e.2) = .ok (rules.map (Rule.rename τ)) := by
  obtain ⟨name, v⟩ := e
  unfold rulesOfEntry at h
  split at h
  next scope entries limited mapping =>
    cases mapping
    have each := mapM_map_ok (fun _ _ made => ruleOf_rename ext made other) h
    unfold rulesOfEntry
    split
    next found mapping =>
      cases limited.symm.trans found
      cases mapping
      exact each
    next none =>
      exact absurd rfl (none scope _ limited)
  next =>
    -- A rule that has been read is a text, and stays one.
    obtain ⟨r, made, rfl⟩ := map_ok_iff.mp h
    obtain ⟨_, written, _⟩ := ruleOf_ok_iff.mp made
    cases v with
    | text s =>
      unfold rulesOfEntry
      split
      next mapping => cases mapping
      next => exact map_ok_iff.mpr ⟨_, ruleOf_rename ext made other, rfl⟩
    | _ => cases written

theorem rulesOfStep_rename (ext : Extends ids σ τ) {e : String × Value} {x : String × List Rule}
    (h : rulesOfStep ids e = .ok x) :
    rulesOfStep (ids.map τ) (σ e.1, e.2.onEntries fun r => (r.1, renameRule σ r.2)) =
      .ok (Prod.map τ (List.map (Rule.rename τ)) x) := by
  obtain ⟨_, declared, h⟩ := bind_ok_iff.mp h
  obtain ⟨entries, listed, h⟩ := bind_ok_iff.mp h
  obtain ⟨rules, made, h⟩ := bind_ok_iff.mp h
  cases h
  refine bind_ok_iff.mpr ⟨_, known_rename ext declared _, ?_⟩
  refine bind_ok_iff.mpr ⟨_, entriesOf_onEntries listed _ _, ?_⟩
  refine bind_ok_iff.mpr ⟨_, mapM_map_ok (fun _ _ made => rulesOfEntry_rename ext made _) made, ?_⟩
  rw [Prod.map_apply, List.map_flatten, ext.same e.1 (known_ok_iff.mp declared)]
  rfl

theorem rulesOf_rename (ext : Extends ids σ τ) {rules : List (String × List Rule)}
    (h : rulesOf ids v = .ok rules) (shuffled : Shuffled (v.map (renameRules σ)) v') :
    ∃ rules', rulesOf (ids.map τ) v' = .ok rules' ∧
      Reordered (rules.map (Prod.map τ (List.map (Rule.rename τ)))) rules' := by
  obtain ⟨entries, listed, made⟩ := bind_ok_iff.mp h
  exact shuffled.rulesOf (bind_ok_iff.mpr ⟨_, entriesOf_onEntries listed _ _,
    mapM_map_ok (fun _ _ => rulesOfStep_rename ext) made⟩)

end

end Flow

end Walkthrough
