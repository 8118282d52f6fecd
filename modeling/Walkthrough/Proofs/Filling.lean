import Walkthrough.Proofs.Endpoint
import Walkthrough.Proofs.Placeholder
import Walkthrough.Proofs.Rewriting
import Walkthrough.Proofs.Traverse

/-!
# Filling the parts of a template

What it means for a text that its endpoints are filled in (`Template.Filled`), that its tokens are
replaced (`Template.Rewritten`), and that it cannot be done: an endpoint has no value
(`Template.Lacks`), or a placeholder is left without a token (`Template.Leaves`). The program does
this and reports that.
-/

namespace Walkthrough.Template

open Walkthrough.Checks

variable {c : EndpointContext} {ps : List Piece} {cs : List Char} {text out name : String}

/-! ## Endpoints -/

/-- The pieces with each endpoint in place of its placeholder. -/
inductive Fills (c : EndpointContext) : List Piece → List Char → Prop
  | nil : Fills c [] []
  | char {a : Char} {ps : List Piece} {cs : List Char} (later : Fills c ps cs) :
      Fills c (.char a :: ps) (a :: cs)
  | slot {name : List Char} {v : String} {ps : List Piece} {cs : List Char}
      (given : c.Gives (String.ofList name) v) (later : Fills c ps cs) :
      Fills c (.slot name :: ps) (v.toList ++ cs)

/-- The text with its endpoints filled in. -/
def Filled (c : EndpointContext) (text out : String) : Prop :=
  ∃ ps cs, Splits endpointForm text.toList ps ∧ Fills c ps cs ∧ out = String.ofList cs

/-- The first endpoint in the text that has no value. -/
def Lacks (c : EndpointContext) (text name : String) : Prop :=
  ∃ ps, Splits endpointForm text.toList ps ∧
    First (fun name => ∀ v, ¬c.Gives name v) (ps.filterMap Piece.slot?) name

theorem fillPiece_slot_ok_iff {endpoint : String → Option String} {name cs : List Char} :
    fillPiece endpoint (.slot name) = .ok cs ↔
      ∃ v, endpoint (String.ofList name) = some v ∧ v.toList = cs := by
  cases found : endpoint (String.ofList name) <;> simp [fillPiece, found]

theorem fills_iff : Fills c ps cs ↔
    ∃ filled, ps.mapM (fillPiece c.endpoint?) = .ok filled ∧ filled.flatten = cs := by
  simp only [mapM_ok_iff]
  constructor
  · intro h
    induction h with
    | nil => exact ⟨[], .nil, rfl⟩
    | @char a _ _ _ ih =>
      obtain ⟨filled, each, rfl⟩ := ih
      exact ⟨[a] :: filled, .cons rfl each, rfl⟩
    | @slot _ v _ _ given _ ih =>
      obtain ⟨filled, each, rfl⟩ := ih
      have found := EndpointContext.endpoint?_eq_some_iff.mpr given
      exact ⟨v.toList :: filled, .cons (fillPiece_slot_ok_iff.mpr ⟨v, found, rfl⟩) each, rfl⟩
  · rintro ⟨filled, each, rfl⟩
    induction each with
    | nil => exact .nil
    | @cons piece _ _ _ first _ ih =>
      cases piece with
      | char a =>
        cases first
        exact .char ih
      | slot name =>
        obtain ⟨v, found, rfl⟩ := fillPiece_slot_ok_iff.mp first
        exact .slot (EndpointContext.endpoint?_eq_some_iff.mp found) ih

theorem fill_ok_iff : fill c.endpoint? text = .ok out ↔ Filled c text out := by
  unfold fill Filled
  rw [map_ok_iff]
  simp only [fills_iff, endpointForm_bracketed.splits_iff]
  constructor
  · rintro ⟨filled, made, rfl⟩
    exact ⟨_, _, rfl, ⟨filled, made, rfl⟩, rfl⟩
  · rintro ⟨_, _, rfl, ⟨filled, made, rfl⟩, rfl⟩
    exact ⟨filled, made, rfl⟩

theorem fills_append_iff {qs : List Piece} : Fills c (ps ++ qs) cs ↔
    ∃ front back, cs = front ++ back ∧ Fills c ps front ∧ Fills c qs back := by
  constructor
  · intro h
    induction ps generalizing cs with
    | nil => exact ⟨[], cs, rfl, .nil, h⟩
    | cons p ps ih =>
      cases h with
      | char later =>
        obtain ⟨front, back, rfl, first, second⟩ := ih later
        exact ⟨_ :: front, back, rfl, .char first, second⟩
      | slot given later =>
        obtain ⟨front, back, rfl, first, second⟩ := ih later
        exact ⟨_ ++ front, back, by simp, .slot given first, second⟩
  · rintro ⟨front, back, rfl, first, second⟩
    induction first with
    | nil => exact second
    | char _ ih => exact .char ih
    | slot given _ ih =>
      rw [List.append_assoc]
      exact .slot given ih

theorem fills_chars_iff {plain : List Char} : Fills c (plain.map .char) cs ↔ cs = plain := by
  induction plain generalizing cs with
  | nil =>
    constructor
    · rintro ⟨⟩
      rfl
    · rintro rfl
      exact .nil
  | cons a plain ih =>
    constructor
    · rintro ⟨⟩
      next later => rw [ih.mp later]
    · rintro rfl
      exact .char (ih.mpr rfl)

def unresolved? (c : EndpointContext) (name : String) : Option RenderFault :=
  match c.endpoint? name with
  | some _ => none
  | none => some (.unresolvedEndpoint name)

theorem unresolved?_eq_some_iff {f : RenderFault} :
    unresolved? c name = some f ↔ f = .unresolvedEndpoint name ∧ ∀ v, ¬c.Gives name v := by
  unfold unresolved?
  simp only [← EndpointContext.endpoint?_eq_some_iff]
  cases c.endpoint? name with
  | some v => simp
  | none => simp [eq_comm]

theorem fault?_fillPiece (c : EndpointContext) (piece : Piece) :
    fault? (fillPiece c.endpoint? piece) = piece.slot?.bind (unresolved? c) := by
  cases piece with
  | char a => rfl
  | slot name =>
    cases found : c.endpoint? (String.ofList name) <;>
      simp [fillPiece, unresolved?, Piece.slot?, fault?, found]

theorem fault?_fill (c : EndpointContext) (text : String) :
    fault? (fill c.endpoint? text) = (slots endpointForm text).findSome? (unresolved? c) := by
  unfold fill slots
  rw [fault?_map, fault?_mapM]
  induction pieces endpointForm text.toList with
  | nil => rfl
  | cons piece ps ih =>
    rw [findSome?_cons_eq_or, fault?_fillPiece, ih]
    cases named : piece.slot? with
    | none => simp [named]
    | some name => simp [named, findSome?_cons_eq_or]

/-- A text cannot be filled when an endpoint has no value, and the first such endpoint is reported. -/
theorem fill_error_iff {f : RenderFault} :
    fill c.endpoint? text = .error f ↔ ∃ name, f = .unresolvedEndpoint name ∧ Lacks c text name := by
  have lacking : ∀ name, (∃ f, unresolved? c name = some f) ↔ ∀ v, ¬c.Gives name v := by
    intro name
    simp [unresolved?_eq_some_iff]
  rw [← fault?_eq_some_iff, fault?_fill, findSome?_eq_some_iff_first]
  simp only [Lacks, endpointForm_bracketed.splits_iff, First.congr lacking, exists_eq_left']
  refine exists_congr fun name => ?_
  constructor
  · rintro ⟨first, found⟩
    exact ⟨(unresolved?_eq_some_iff.mp found).1, first⟩
  · rintro ⟨rfl, first⟩
    exact ⟨first, unresolved?_eq_some_iff.mpr ⟨rfl, first.holds⟩⟩

/-! ## Tokens -/

variable {scope : Scope} {values : List (Rule × String)}

/-- The part of a request with its tokens replaced. -/
def Rewritten (values : List (Rule × String)) (scope : Scope) (text out : String) : Prop :=
  ∃ units, Rewrites (Binds scope values) (unitsOf text) units ∧
    out = String.ofList (Text.join units)

/-- The first placeholder that is left when the tokens are taken out of a part of a request. -/
def Leaves (values : List (Rule × String)) (scope : Scope) (text name : String) : Prop :=
  ∃ units ps, Rewrites (Binds scope values).blank (unitsOf text) units ∧
    Splits tokenForm units ps ∧ (ps.filterMap Piece.slot?).head? = some name

theorem leaves_iff (filled : ∀ e ∈ values, e.1.token ≠ "") :
    Leaves values scope text name ↔
      (slots tokenForm (String.ofList (replace (blanked (tokensFor scope values))
        (unitsOf text)))).head? = some name := by
  have definite : Binding.Definite (blanked (tokensFor scope values)).binding := by
    rw [binding_blanked, binding_tokensFor]
    exact (definite_binds filled).blank
  unfold Leaves slots
  rw [← binding_tokensFor, ← binding_blanked]
  simp only [rewrites_iff definite, tokenForm_bracketed.splits_iff, String.toList_ofList]
  constructor
  · rintro ⟨_, _, rfl, rfl, first⟩
    exact first
  · intro first
    exact ⟨_, _, rfl, rfl, first⟩

theorem rewritten_iff (filled : ∀ e ∈ values, e.1.token ≠ "") :
    Rewritten values scope text out ↔
      String.ofList (Text.join (replace (tokensFor scope values) (unitsOf text))) = out := by
  have definite : Binding.Definite (tokensFor scope values).binding := by
    rw [binding_tokensFor]
    exact definite_binds filled
  unfold Rewritten
  rw [← binding_tokensFor]
  simp only [rewrites_iff definite]
  constructor
  · rintro ⟨_, rfl, rfl⟩
    rfl
  · rintro rfl
    exact ⟨_, rfl, rfl⟩

theorem substitute_ok_iff (filled : ∀ e ∈ values, e.1.token ≠ "") :
    substitute values scope text = .ok out ↔
      (∀ name, ¬Leaves values scope text name) ∧ Rewritten values scope text out := by
  simp only [leaves_iff filled, rewritten_iff filled]
  unfold substitute
  simp only
  split
  next name rest left => simp [left]
  next none => simp [none]

theorem substitute_error_iff (filled : ∀ e ∈ values, e.1.token ≠ "") {f : RenderFault} :
    substitute values scope text = .error f ↔
      ∃ name, f = .unboundPlaceholder ("<" ++ name ++ ">") scope ∧
        Leaves values scope text name := by
  simp only [leaves_iff filled]
  unfold substitute
  simp only
  split
  next name rest left => simp [left, eq_comm]
  next none => simp [none]

/-! ## Requests -/

section
variable {change : Scope → String → Except RenderFault String} {request : Request}
  {f : RenderFault}

/-- Where the faults of a change to single texts are known, the fault of the change to a request is
that of the first part that has one. -/
theorem traverse_error_iff {faulty : Scope → String → String → Prop}
    {fault : Scope → String → RenderFault}
    (h : ∀ scope text f, change scope text = .error f ↔
      ∃ name, f = fault scope name ∧ faulty scope text name) :
    traverse change request = .error f ↔
      ∃ part name, First (fun part => ∃ name, faulty part.1 part.2 name) (parts request) part ∧
        faulty part.1 part.2 name ∧ f = fault part.1 name := by
  have fails : ∀ part : Scope × String,
      (∃ f, fault? (change part.1 part.2) = some f) ↔ ∃ name, faulty part.1 part.2 name := by
    intro part
    simp only [fault?_eq_some_iff, h]
    constructor
    · rintro ⟨_, name, _, wrong⟩
      exact ⟨name, wrong⟩
    · rintro ⟨name, wrong⟩
      exact ⟨_, name, rfl, wrong⟩
  rw [← fault?_eq_some_iff, fault?_traverse, findSome?_eq_some_iff_first]
  simp only [First.congr fails]
  simp only [fault?_eq_some_iff, h]
  constructor
  · rintro ⟨part, first, name, same, wrong⟩
    exact ⟨part, name, first, wrong, same⟩
  · rintro ⟨part, name, first, wrong, same⟩
    exact ⟨part, first, name, same, wrong⟩

end

end Walkthrough.Template
