import Walkthrough.Proofs.Flow
import Walkthrough.Proofs.Ledger
import Mathlib.Data.List.Perm.Basic

/-!
# Entries in another order

Where an entry of a section stands among those of other names depends on the names alone
(`Record.precedes`), so it changes when steps are renamed. The sections that are keyed by steps are
read entry by entry, and what is read is looked up by name: a section whose entries are reordered
passes the same checks and gives the same values.
-/

namespace Walkthrough

open Checks

variable {ε α β γ : Type} {a b c : List (String × α)}

/-! ## Entries by name -/

/-- The entries with a name, in order. -/
def slice (name : String) (l : List (String × α)) : List (String × α) :=
  l.filter (·.1 == name)

/-- The lists have the same entries, those of one name in the same order. -/
def Reordered (a b : List (String × α)) : Prop :=
  ∀ name, slice name a = slice name b

theorem Reordered.refl (a : List (String × α)) : Reordered a a := fun _ => rfl

theorem mem_iff_mem_slice {e : String × α} : e ∈ a ↔ e ∈ slice e.1 a := by
  simp [slice]

theorem Reordered.mem_iff (h : Reordered a b) {e : String × α} : e ∈ a ↔ e ∈ b := by
  rw [mem_iff_mem_slice, h e.1, ← mem_iff_mem_slice]

theorem Reordered.get?_eq (h : Reordered a b) (name : String) :
    Ledger.get? a name = Ledger.get? b name := by
  unfold Ledger.get?
  rw [← List.head?_filter, ← List.head?_filter]
  exact congrArg (Option.map (·.2) ·.head?) (h name)

theorem Reordered.names_perm (h : Reordered a b) : (Ledger.names a).Perm (Ledger.names b) := by
  have count (l : List (String × α)) (name : String) :
      (Ledger.names l).count name = (slice name l).length := by
    rw [List.count_eq_length_filter, Ledger.names, List.filter_map, List.length_map]
    rfl
  rw [List.perm_iff_count]
  intro name
  rw [count, count, h name]

theorem Reordered.filter (h : Reordered a b) (p : String × α → Bool) :
    Reordered (a.filter p) (b.filter p) := by
  intro name
  have same := congrArg (List.filter p) (h name)
  unfold slice at same ⊢
  rwa [List.filter_comm, List.filter_comm p] at same

theorem Reordered.append {a' b' : List (String × α)} (h : Reordered a b) (h' : Reordered a' b') :
    Reordered (a ++ a') (b ++ b') := by
  intro name
  unfold slice
  rw [List.filter_append, List.filter_append]
  exact congrArg₂ (· ++ ·) (h name) (h' name)

theorem Reordered.swap {x y : String × α} (apart : x.1 ≠ y.1) (l : List (String × α)) :
    Reordered (x :: y :: l) (y :: x :: l) := by
  intro name
  by_cases first : x.1 = name
  · have second : y.1 ≠ name := fun same => apart (first.trans same.symm)
    simp [slice, first, second]
  · simp [slice, List.filter_cons, first]

/-! ## Checks of entries -/

/-- What the checks of some entries give, one after the other, by name: each check gives entries of
the name that it is about. -/
theorem slice_of_mapM {f : String × α → Except ε γ} {entries : γ → List (String × β)}
    (keyed : ∀ e g, f e = .ok g → ∀ x ∈ entries g, x.1 = e.1) {l : List (String × α)}
    {out : List γ} (h : l.mapM f = .ok out) (name : String) :
    ∃ part, (slice name l).mapM f = .ok part ∧
      slice name (out.flatMap entries) = part.flatMap entries := by
  have made := mapM_ok_iff.mp h
  clear h
  induction made with
  | nil => exact ⟨[], rfl, rfl⟩
  | @cons e g l out first _ ih =>
    obtain ⟨part, made, same⟩ := ih
    have here : ∀ x ∈ entries g, (x.1 == name) = (e.1 == name) :=
      fun x mem => by rw [keyed e g first x mem]
    unfold slice at made same ⊢
    rw [List.flatMap_cons, List.filter_append, List.filter_congr here, same]
    by_cases named : e.1 = name
    · refine ⟨g :: part, ?_, ?_⟩
      · rw [List.filter_cons_of_pos (by simpa using named)]
        exact mapM_ok_iff.mpr (.cons first (mapM_ok_iff.mp made))
      · simp [named]
    · refine ⟨part, ?_, ?_⟩
      · rwa [List.filter_cons_of_neg (by simpa using named)]
      · simp [named]

theorem Reordered.flatMap_mapM (h : Reordered a b) {f : String × α → Except ε γ}
    {entries : γ → List (String × β)}
    (keyed : ∀ e g, f e = .ok g → ∀ x ∈ entries g, x.1 = e.1) {out : List γ}
    (made : a.mapM f = .ok out) :
    ∃ out', b.mapM f = .ok out' ∧ Reordered (out.flatMap entries) (out'.flatMap entries) := by
  obtain ⟨out', made'⟩ : ∃ out', b.mapM f = .ok out' :=
    exists_mapM_ok_iff.mpr fun e mem => exists_mapM_ok_iff.mp ⟨_, made⟩ e (h.mem_iff.mpr mem)
  refine ⟨out', made', fun name => ?_⟩
  obtain ⟨part, read, same⟩ := slice_of_mapM keyed made name
  obtain ⟨part', read', same'⟩ := slice_of_mapM keyed made' name
  rw [h name, read'] at read
  cases read
  rw [same, same']

theorem Reordered.mapM (h : Reordered a b) {f : String × α → Except ε (String × β)}
    (keyed : ∀ e x, f e = .ok x → x.1 = e.1) {out : List (String × β)}
    (made : a.mapM f = .ok out) : ∃ out', b.mapM f = .ok out' ∧ Reordered out out' := by
  have single : ∀ e x, f e = .ok x → ∀ y ∈ [x], y.1 = e.1 := by
    intro e x made y mem
    rw [List.mem_singleton.mp mem]
    exact keyed e x made
  simpa using h.flatMap_mapM single made

/-! ## Sections -/

namespace Flow

/-- The values are the same, or they are mappings with the same entries in another order. -/
inductive Shuffled : Option Value → Option Value → Prop
  | same (v : Option Value) : Shuffled v v
  | mapping {a b : Record Value} (h : Reordered a b) :
      Shuffled (some (.mapping a)) (some (.mapping b))

variable {what : String} {ids : List String} {v v' : Option Value}

theorem Shuffled.entriesOf (h : Shuffled v v') {entries : Record Value}
    (made : Flow.entriesOf what v = .ok entries) :
    ∃ entries', Flow.entriesOf what v' = .ok entries' ∧ Reordered entries entries' := by
  cases h with
  | same => exact ⟨_, made, .refl _⟩
  | mapping h =>
    cases made
    exact ⟨_, rfl, h⟩

theorem textEntry_keyed {e : String × Value} {x : String × String}
    (h : textEntry what e = .ok x) : x.1 = e.1 := by
  unfold textEntry at h
  split at h <;> cases h
  rfl

theorem Shuffled.textMapOf (h : Shuffled v v') {texts : Record String}
    (made : Flow.textMapOf what v = .ok texts) :
    ∃ texts', Flow.textMapOf what v' = .ok texts' ∧ Reordered texts texts' := by
  obtain ⟨entries, listed, made⟩ := bind_ok_iff.mp made
  obtain ⟨all, read, made⟩ := bind_ok_iff.mp made
  cases made
  obtain ⟨entries', listed', moved⟩ := h.entriesOf listed
  obtain ⟨all', read', moved⟩ := moved.mapM (fun _ _ => textEntry_keyed) read
  exact ⟨_, bind_ok_iff.mpr ⟨_, listed', bind_ok_iff.mpr ⟨_, read', rfl⟩⟩, moved.filter _⟩

theorem linkOf_keyed {e : String × Value} {x : String × List String}
    (h : linkOf ids e = .ok x) : x.1 = e.1 := by
  obtain ⟨_, _, h⟩ := bind_ok_iff.mp h
  obtain ⟨_, _, h⟩ := bind_ok_iff.mp h
  obtain ⟨_, _, h⟩ := bind_ok_iff.mp h
  cases h
  rfl

theorem rulesOfStep_keyed {e : String × Value} {x : String × List Rule}
    (h : rulesOfStep ids e = .ok x) : x.1 = e.1 := by
  obtain ⟨_, _, h⟩ := bind_ok_iff.mp h
  obtain ⟨_, _, h⟩ := bind_ok_iff.mp h
  obtain ⟨_, _, h⟩ := bind_ok_iff.mp h
  cases h
  rfl

theorem Shuffled.linksOf (h : Shuffled v v') {links : Order.Links}
    (made : Flow.linksOf ids v = .ok links) :
    ∃ links', Flow.linksOf ids v' = .ok links' ∧ Reordered links links' := by
  obtain ⟨entries, listed, made⟩ := bind_ok_iff.mp made
  obtain ⟨entries', listed', moved⟩ := h.entriesOf listed
  obtain ⟨links', made', moved⟩ := moved.mapM (fun _ _ => linkOf_keyed) made
  exact ⟨links', bind_ok_iff.mpr ⟨_, listed', made'⟩, moved⟩

theorem Shuffled.rulesOf (h : Shuffled v v') {rules : List (String × List Rule)}
    (made : Flow.rulesOf ids v = .ok rules) :
    ∃ rules', Flow.rulesOf ids v' = .ok rules' ∧ Reordered rules rules' := by
  obtain ⟨entries, listed, made⟩ := bind_ok_iff.mp made
  obtain ⟨entries', listed', moved⟩ := h.entriesOf listed
  obtain ⟨rules', made', moved⟩ := moved.mapM (fun _ _ => rulesOfStep_keyed) made
  exact ⟨rules', bind_ok_iff.mpr ⟨_, listed', made'⟩, moved⟩

theorem commandOf_keyed {e : String × String} {x : Option (String × Request)}
    (h : commandOf ids e = .ok x) : ∀ y ∈ x.toList, y.1 = e.1 := by
  obtain ⟨_, _, h⟩ := bind_ok_iff.mp h
  split at h
  · cases h
    simp
  · split at h
    · cases h
      simp
    · cases h

theorem commands_reordered {texts texts' : Record String} (h : Reordered texts texts')
    {read : List (Option (String × Request))} (made : texts.mapM (commandOf ids) = .ok read) :
    ∃ read', texts'.mapM (commandOf ids) = .ok read' ∧
      Reordered (read.filterMap id) (read'.filterMap id) := by
  have kept (l : List (Option (String × Request))) : l.flatMap Option.toList = l.filterMap id := by
    rw [List.filterMap_eq_flatMap_toList]
    rfl
  obtain ⟨read', made', moved⟩ := h.flatMap_mapM (fun _ _ => commandOf_keyed) made
  rw [kept, kept] at moved
  exact ⟨read', made', moved⟩

/-! ## Requests -/

/-- The template of an entry of the section `requests`. -/
def requestEntry (ids : List String) (e : String × Value) : Except Fault (String × Request) := do
  known ids (.entry "requests" e.1) e.1
  let r ← requestOf e.1 e.2
  return (e.1, r)

theorem requestEntry_ok_iff {e : String × Value} {x : String × Request} :
    requestEntry ids e = .ok x ↔
      known ids (.entry "requests" e.1) e.1 = .ok () ∧ requestOf e.1 e.2 = .ok x.2 ∧ x.1 = e.1 := by
  unfold requestEntry
  constructor
  · intro h
    obtain ⟨_, declared, h⟩ := bind_ok_iff.mp h
    obtain ⟨r, read, h⟩ := bind_ok_iff.mp h
    cases h
    exact ⟨declared, read, rfl⟩
  · rintro ⟨declared, read, named⟩
    rw [declared, ok_bind, read, ok_bind, ← named]
    rfl

variable {templates out : Ledger Request}

theorem addRequest_ok_iff (unreserved : Record.reserved ∉ ids) {e : String × Value} :
    addRequest ids templates e = .ok out ↔
      ∃ x, requestEntry ids e = .ok x ∧ x.1 ∉ templates.names ∧ out = templates ++ [x] := by
  have has := Ledger.has_iff templates e.1
  unfold addRequest
  rw [bind_ok_iff]
  simp only [check_ok_iff, throw_ok_iff, bind_ok_iff, requestEntry_ok_iff, imp_false]
  -- A declared step has another name than the reserved one, so its template is kept.
  have kept (declared : known ids (.entry "requests" e.1) e.1 = .ok ()) :
      (e.1 == Record.reserved) = false :=
    beq_eq_false_iff_ne.mpr fun same => unreserved (same ▸ known_ok_iff.mp declared)
  constructor
  · rintro ⟨_, declared, fresh, r, read, h⟩
    rw [kept declared] at h
    cases h
    exact ⟨(e.1, r), ⟨declared, read, rfl⟩, fun mem => fresh (has.mpr mem), rfl⟩
  · rintro ⟨⟨name, r⟩, ⟨declared, read, rfl⟩, fresh, rfl⟩
    refine ⟨_, declared, fun old => fresh (has.mp old), r, read, ?_⟩
    rw [kept declared]
    rfl

/-- The section `requests` gives a template for each of its entries. Their names differ from one
another and from the names that have templates already. -/
theorem foldlM_addRequest_ok_iff (unreserved : Record.reserved ∉ ids) {entries : Record Value} :
    entries.foldlM (addRequest ids) templates = .ok out ↔
      ∃ read, entries.mapM (requestEntry ids) = .ok read ∧ (Ledger.names read).Nodup ∧
        (∀ name ∈ Ledger.names read, name ∉ templates.names) ∧ out = templates ++ read := by
  induction entries generalizing templates with
  | nil =>
    simp [pure, Except.pure, Ledger.names, eq_comm]
  | cons e entries ih =>
    rw [List.foldlM_cons, bind_ok_iff]
    simp only [addRequest_ok_iff unreserved, ih, mapM_ok_iff, List.forall₂_cons_left_iff]
    constructor
    · rintro ⟨_, ⟨x, first, fresh, rfl⟩, read, others, distinct, apart, rfl⟩
      refine ⟨x :: read, ⟨x, read, first, others, rfl⟩, ?_, ?_, by simp⟩
      · refine List.nodup_cons.mpr ⟨fun again => ?_, distinct⟩
        exact apart x.1 again (by simp [Ledger.names])
      · rintro name (_ | ⟨_, later⟩) old
        · exact fresh old
        · exact apart name later (by simp [Ledger.names] at old ⊢; exact Or.inl old)
    · rintro ⟨_, ⟨x, read, first, others, rfl⟩, distinct, apart, rfl⟩
      obtain ⟨new, distinct⟩ := List.nodup_cons.mp distinct
      refine ⟨_, ⟨x, first, apart x.1 (by simp [Ledger.names]), rfl⟩, read, others, distinct, ?_,
        by simp⟩
      intro name mem old
      rw [Ledger.names, List.map_append, List.mem_append] at old
      rcases old with old | same
      · exact apart name (by simp [Ledger.names] at mem ⊢; exact Or.inr mem) old
      · rw [List.map_singleton, List.mem_singleton] at same
        rw [same] at mem
        exact new mem

theorem foldlM_addRequest_reordered (unreserved : Record.reserved ∉ ids) {a b : Record Value}
    (h : Reordered a b) {before before' : Ledger Request} (h' : Reordered before before')
    (made : a.foldlM (addRequest ids) before = .ok out) :
    ∃ out', b.foldlM (addRequest ids) before' = .ok out' ∧ Reordered out out' := by
  obtain ⟨read, each, distinct, apart, rfl⟩ := (foldlM_addRequest_ok_iff unreserved).mp made
  have keyed : ∀ e x, requestEntry ids e = .ok x → x.1 = e.1 :=
    fun e x made => (requestEntry_ok_iff.mp made).2.2
  obtain ⟨read', each', moved⟩ := h.mapM keyed each
  refine ⟨before' ++ read', (foldlM_addRequest_ok_iff unreserved).mpr
    ⟨read', each', moved.names_perm.nodup_iff.mp distinct, fun name mem old => ?_, rfl⟩,
    h'.append moved⟩
  exact apart name (moved.names_perm.mem_iff.mpr mem) (h'.names_perm.mem_iff.mpr old)

end Flow

end Walkthrough
