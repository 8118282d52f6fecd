import Walkthrough.Path
import Walkthrough.Proofs.Text

/-!
# Where paths lead

A path leads from a directory to a place, which is given by the names on the way to it from the root
(`Path.place`). Making a path plain does not change where it leads (`Path.reach_normalize`). The plain
parts of a relative path are steps upwards and then names; without a step upwards it leads to a place
below the one where it starts.
-/

namespace Walkthrough

namespace Text

variable {sep : Char} {cs : List Char} {s : String} {names : List String}

/-! ## Parts of a text -/

theorem partsOf_ne_nil (sep : Char) (cs : List Char) : partsOf sep cs ≠ [] := by
  cases cs with
  | nil => simp [partsOf]
  | cons c cs =>
    unfold partsOf
    split
    · simp
    · split <;> simp

theorem partsOf_eq_splitOn (sep : Char) (cs : List Char) : partsOf sep cs = cs.splitOn sep := by
  induction cs with
  | nil => rfl
  | cons c cs ih =>
    rw [List.splitOn_cons_eq_if_modifyHead, ← ih, partsOf]
    obtain ⟨first, rest, parts⟩ := List.exists_cons_of_ne_nil (partsOf_ne_nil sep cs)
    by_cases same : c = sep
    · simp [same]
    · simp [same, parts]

theorem not_mem_of_mem_partsOf : ∀ part ∈ partsOf sep cs, sep ∉ part := by
  induction cs with
  | nil => simp [partsOf]
  | cons c cs ih =>
    obtain ⟨first, rest, parts⟩ := List.exists_cons_of_ne_nil (partsOf_ne_nil sep cs)
    by_cases same : c = sep
    · simpa [partsOf, same] using ih
    · rw [parts, List.forall_mem_cons] at ih
      simp only [partsOf, if_neg same, parts, List.forall_mem_cons]
      exact ⟨by simp [ih.1, Ne.symm same], ih.2⟩

theorem not_mem_of_mem_parts {part : String} (mem : part ∈ parts sep s) : sep ∉ part.toList := by
  obtain ⟨cs, inParts, rfl⟩ := List.mem_map.mp mem
  rw [String.toList_ofList]
  exact not_mem_of_mem_partsOf cs inParts

theorem parts_of_not_mem (absent : sep ∉ s.toList) : parts sep s = [s] := by
  rw [parts, partsOf_eq_splitOn, List.splitOn_eq_singleton absent, List.map_singleton,
    String.ofList_toList]

/-- The parts on both sides of a separator are read one by one. -/
theorem parts_of_spelled {first second : String}
    (spelled : s.toList = first.toList ++ sep :: second.toList) :
    parts sep s = parts sep first ++ parts sep second := by
  simp only [parts, spelled, partsOf_eq_splitOn, List.splitOn_append_cons_self, List.map_append]

theorem parts_slash (s other : String) :
    parts '/' (s ++ "/" ++ other) = parts '/' s ++ parts '/' other :=
  parts_of_spelled (by simp)

theorem parts_joinWith {text : String} (single : text.toList = [sep]) (some : names ≠ [])
    (whole : ∀ n ∈ names, sep ∉ n.toList) : parts sep (joinWith text names) = names := by
  have apart : ∀ cs ∈ names.map String.toList, sep ∉ cs := by simpa using whole
  rw [parts, partsOf_eq_splitOn, joinWith, String.toList_intercalate, single,
    List.splitOn_intercalate sep apart (by simpa using some), List.map_map]
  simp

theorem joinWith_parts {text : String} (single : text.toList = [sep]) (s : String) :
    joinWith text (parts sep s) = s := by
  rw [← String.toList_inj, joinWith, String.toList_intercalate, single, parts, List.map_map]
  simp [Function.comp_def, partsOf_eq_splitOn, List.intercalate_splitOn]

/-- A text has one spelling by parts in which the separator does not occur. -/
theorem parts_eq_iff {text : String} (single : text.toList = [sep]) : parts sep s = names ↔
    names ≠ [] ∧ (∀ n ∈ names, sep ∉ n.toList) ∧ joinWith text names = s := by
  constructor
  · rintro rfl
    refine ⟨?_, fun n => not_mem_of_mem_parts, joinWith_parts single s⟩
    simpa [parts] using partsOf_ne_nil sep s.toList
  · rintro ⟨some, whole, rfl⟩
    exact parts_joinWith single some whole

/-- Names without a slash can be read off the path that they make. -/
theorem joinWith_inj {others : List String} (some : names ≠ []) (someToo : others ≠ [])
    (whole : ∀ n ∈ names, '/' ∉ n.toList) (wholeToo : ∀ n ∈ others, '/' ∉ n.toList) :
    joinWith "/" names = joinWith "/" others ↔ names = others := by
  constructor
  · intro same
    have slash : "/".toList = ['/'] := by decide
    rw [← parts_joinWith slash some whole, same, parts_joinWith slash someToo wholeToo]
  · rintro rfl
    rfl

end Text

namespace Path

variable {start done names : List String} {p path directory first second id name : String}

/-! ## Following a path -/

/-- Where a path leads from a place. The names of a place are held from its end to the root. -/
def follow (start : List String) (path : String) : List String :=
  (Text.parts '/' path).foldl (addPart true) start

theorem follow_slash (start : List String) (path other : String) :
    follow start (path ++ "/" ++ other) = follow (follow start path) other := by
  simp [follow, Text.parts_slash]

theorem follow_empty (start : List String) : follow start "" = start := rfl

/-- Not empty, no dots alone, and no slash. -/
structure IsName (n : String) : Prop where
  nonempty : n ≠ ""
  here : n ≠ "."
  up : n ≠ ".."
  whole : '/' ∉ n.toList

instance (n : String) : Decidable (IsName n) :=
  decidable_of_iff (n ≠ "" ∧ n ≠ "." ∧ n ≠ ".." ∧ '/' ∉ n.toList)
    ⟨fun ⟨nonempty, here, up, whole⟩ => ⟨nonempty, here, up, whole⟩,
      fun ⟨nonempty, here, up, whole⟩ => ⟨nonempty, here, up, whole⟩⟩

/-- A part of a path is nothing, a step upwards, or a name. -/
inductive Part : String → Prop
  | nothing {p : String} (empty : p = "" ∨ p = ".") : Part p
  | up : Part ".."
  | name {n : String} (named : IsName n) : Part n

theorem part_of_mem_parts (mem : p ∈ Text.parts '/' path) : Part p := by
  have whole := Text.not_mem_of_mem_parts mem
  by_cases empty : p = "" ∨ p = "."
  · exact .nothing empty
  rw [not_or] at empty
  by_cases up : p = ".."
  · rw [up]
    exact .up
  · exact .name ⟨empty.1, empty.2, up, whole⟩

theorem addPart_nothing (absolute : Bool) (empty : p = "" ∨ p = ".") (done : List String) :
    addPart absolute done p = done := by
  simp [addPart, empty]

theorem addPart_name (absolute : Bool) (named : IsName p) (done : List String) :
    addPart absolute done p = p :: done := by
  simp [addPart, named.nonempty, named.here, named.up]

/-- A step upwards takes back a name. -/
theorem addPart_up (absolute : Bool) (named : IsName name) (done : List String) :
    addPart absolute (name :: done) ".." = done := by
  simp [addPart, named.up]

theorem follow_name (named : IsName p) (start : List String) : follow start p = p :: start := by
  rw [follow, Text.parts_of_not_mem named.whole]
  exact addPart_name true named start

theorem foldl_names (named : ∀ n ∈ names, IsName n) (start : List String) :
    names.foldl (addPart true) start = names.reverse ++ start := by
  induction names generalizing start with
  | nil => rfl
  | cons n names ih =>
    obtain ⟨first, others⟩ := List.forall_mem_cons.mp named
    rw [List.foldl_cons, addPart_name true first, ih others]
    simp

/-! ## Plain parts -/

/-- Names, and before them steps upwards; the last part comes first. -/
def Plain (done : List String) : Prop :=
  ∃ names k, done = names ++ List.replicate k ".." ∧ ∀ n ∈ names, IsName n

theorem plain_nil : Plain [] :=
  ⟨[], 0, rfl, by simp⟩

theorem Plain.addPart (plain : Plain done) (part : Part p) : Plain (Path.addPart false done p) := by
  obtain ⟨names, k, rfl, named⟩ := plain
  cases part with
  | nothing empty =>
    rw [addPart_nothing false empty]
    exact ⟨names, k, rfl, named⟩
  | up =>
    cases names with
    | nil =>
      refine ⟨[], k + 1, ?_, named⟩
      cases k <;> rfl
    | cons last names =>
      obtain ⟨first, others⟩ := List.forall_mem_cons.mp named
      exact ⟨names, k, addPart_up false first _, others⟩
  | name isName =>
    refine ⟨p :: names, k, ?_, List.forall_mem_cons.mpr ⟨isName, named⟩⟩
    rw [addPart_name false isName]
    rfl

theorem Plain.foldl {parts : List String} (plain : Plain done) (each : ∀ p ∈ parts, Part p) :
    Plain (parts.foldl (Path.addPart false) done) := by
  induction parts generalizing done with
  | nil => exact plain
  | cons p parts ih =>
    obtain ⟨first, others⟩ := List.forall_mem_cons.mp each
    exact ih (plain.addPart first) others

/-- The plain parts of a relative path are steps upwards, and then names. -/
theorem exists_plainParts (path : String) : ∃ k names,
    plainParts false path = List.replicate k ".." ++ names ∧ ∀ n ∈ names, IsName n := by
  obtain ⟨names, k, parts, named⟩ :=
    plain_nil.foldl fun p (mem : p ∈ Text.parts '/' path) => part_of_mem_parts mem
  refine ⟨k, names.reverse, ?_, by simpa using named⟩
  rw [plainParts, parts, List.reverse_append, List.reverse_replicate]

theorem isName_addPart (named : ∀ n ∈ done, IsName n) (part : Part p) :
    ∀ n ∈ addPart true done p, IsName n := by
  cases part with
  | nothing empty =>
    rw [addPart_nothing true empty]
    exact named
  | up =>
    cases done with
    | nil => simp [addPart]
    | cons last done =>
      obtain ⟨first, others⟩ := List.forall_mem_cons.mp named
      rw [addPart_up true first]
      exact others
  | name isName =>
    rw [addPart_name true isName]
    exact List.forall_mem_cons.mpr ⟨isName, named⟩

/-- The names of a place stay names on every path. -/
theorem isName_follow (named : ∀ n ∈ start, IsName n) (path : String) :
    ∀ n ∈ follow start path, IsName n := by
  have each : ∀ p ∈ Text.parts '/' path, Part p := fun p => part_of_mem_parts
  unfold follow
  generalize Text.parts '/' path = parts at each ⊢
  induction parts generalizing start with
  | nil => exact named
  | cons p parts ih =>
    obtain ⟨first, others⟩ := List.forall_mem_cons.mp each
    exact ih (isName_addPart named first) others

/-- From every place, plain parts with one part more lead where the plain parts of them lead. -/
theorem lead_addPart (plain : Plain done) (part : Part p) (start : List String) :
    (addPart false done p).foldr (fun p place => addPart true place p) start =
      addPart true (done.foldr (fun p place => addPart true place p) start) p := by
  obtain ⟨names, k, rfl, named⟩ := plain
  cases part with
  | nothing empty => rw [addPart_nothing false empty, addPart_nothing true empty]
  | up =>
    cases names with
    | nil => cases k <;> simp [addPart, List.replicate_succ]
    | cons last names =>
      have first := (List.forall_mem_cons.mp named).1
      rw [List.cons_append, addPart_up false first, List.foldr_cons, addPart_name true first,
        addPart_up true first]
  | name isName => rw [addPart_name false isName, List.foldr_cons]

/-- The plain parts of a path lead where the path leads. -/
theorem follow_eq_foldl (start : List String) (path : String) :
    follow start path = (plainParts false path).foldl (addPart true) start := by
  have each : ∀ p ∈ Text.parts '/' path, Part p := fun p => part_of_mem_parts
  have plain := plain_nil
  rw [plainParts, List.foldl_reverse, follow]
  generalize Text.parts '/' path = parts at each ⊢
  -- The parts that have been read lead to the place that has been reached.
  change parts.foldl (addPart true) (List.foldr (fun p place => addPart true place p) start []) = _
  generalize ([] : List String) = done at plain ⊢
  induction parts generalizing done with
  | nil => rfl
  | cons p parts ih =>
    obtain ⟨first, others⟩ := List.forall_mem_cons.mp each
    rw [List.foldl_cons, List.foldl_cons, ← lead_addPart plain first,
      ih others _ (plain.addPart first)]

/-! ## Paths from a directory -/

/-- Where a path leads from a directory, from its end to the root. -/
def reach (directory path : String) : List String :=
  follow (if isAbsolute path then [] else follow [] directory) path

/-- The names on the way from the root to a path, as it is seen from a directory. -/
def place (directory path : String) : List String :=
  (reach directory path).reverse

theorem isName_of_mem_place {n : String} (mem : n ∈ place directory path) : IsName n := by
  have start : ∀ n ∈ if isAbsolute path then [] else follow [] directory, IsName n := by
    split
    · simp
    · exact isName_follow (by simp) directory
  exact isName_follow start path n (List.mem_reverse.mp mem)

theorem resolve_eq (directory path : String) :
    resolve directory path = "/" ++ Text.joinWith "/" (place directory path) := by
  unfold resolve place reach plainParts
  cases isAbsolute path with
  | true => rfl
  | false =>
    have whole := follow_slash [] directory path
    unfold follow at whole
    simp only [Bool.false_eq_true, if_false, whole]
    rfl

theorem isAbsolute_iff : isAbsolute path = true ↔ path.toList.head? = some '/' :=
  Text.startsWith_iff_head? (by decide)

theorem isAbsolute_append (some : first ≠ "") (second : String) :
    isAbsolute (first ++ second) = isAbsolute first := by
  obtain ⟨c, cs, held⟩ := List.exists_cons_of_ne_nil (mt String.toList_eq_nil_iff.mp some)
  rw [Bool.eq_iff_iff, isAbsolute_iff, isAbsolute_iff, String.toList_append, held]
  rfl

theorem isAbsolute_of_whole (whole : '/' ∉ path.toList) : isAbsolute path = false := by
  rw [Bool.eq_false_iff, Ne, isAbsolute_iff]
  exact fun front => whole (List.mem_of_mem_head? front)

theorem isAbsolute_joinWith (some : first ≠ "") (others : List String) :
    isAbsolute (Text.joinWith "/" (first :: others)) = isAbsolute first := by
  cases others with
  | nil => simp [Text.joinWith]
  | cons second others =>
    rw [Text.joinWith_cons_cons, String.append_assoc, isAbsolute_append some]

theorem follow_joinWith (whole : ∀ n ∈ names, '/' ∉ n.toList) (start : List String) :
    follow start (Text.joinWith "/" names) = names.foldl (addPart true) start := by
  cases names with
  | nil => rfl
  | cons n names => rw [follow, Text.parts_joinWith (by decide) (List.cons_ne_nil n names) whole]

/-- A slash at the end of a path leads nowhere. -/
theorem follow_slash_end (start : List String) (path : String) (ends : Bool) :
    follow start (path ++ if ends = true then "/" else "") = follow start path := by
  cases ends with
  | false => simp
  | true =>
    have whole := follow_slash start path ""
    rw [String.append_empty, follow_empty] at whole
    exact whole

theorem mem_plainParts (mem : p ∈ plainParts false path) : p ≠ "" ∧ '/' ∉ p.toList := by
  obtain ⟨k, names, parts, named⟩ := exists_plainParts path
  rw [parts, List.mem_append] at mem
  rcases mem with up | mem
  · rw [List.eq_of_mem_replicate up]
    exact ⟨by decide, by decide⟩
  · exact ⟨(named p mem).nonempty, (named p mem).whole⟩

theorem isAbsolute_plainParts (path : String) :
    isAbsolute (Text.joinWith "/" (plainParts false path)) = false := by
  have each : ∀ p ∈ plainParts false path, p ≠ "" ∧ '/' ∉ p.toList := fun p => mem_plainParts
  generalize plainParts false path = parts at each ⊢
  cases parts with
  | nil => rfl
  | cons first others =>
    obtain ⟨some, whole⟩ := each first List.mem_cons_self
    rw [isAbsolute_joinWith some, isAbsolute_of_whole whole]

theorem follow_plainParts (start : List String) (path : String) :
    follow start (Text.joinWith "/" (plainParts false path)) = follow start path := by
  rw [follow_joinWith (fun p mem => (mem_plainParts mem).2), follow_eq_foldl]

theorem follow_plainParts_root (path : String) :
    follow [] (Text.joinWith "/" (plainParts true path)) = follow [] path := by
  have parts : plainParts true path = (follow [] path).reverse := rfl
  have named : ∀ n ∈ plainParts true path, IsName n := by
    simpa [parts] using isName_follow (by simp) path
  rw [follow_joinWith (fun n mem => (named n mem).whole), foldl_names named, parts]
  simp

/-- A relative path that is made plain stays relative; where nothing is left, it is a dot. -/
theorem normalize_relative (relative : isAbsolute path = false) : ∃ body ends,
    normalize path = body ++ (if ends = true then "/" else "") ∧ body ≠ "" ∧
      isAbsolute body = false ∧ ∀ start, follow start body = follow start path := by
  have still := isAbsolute_plainParts path
  have leads := (follow_plainParts · path)
  generalize made : Text.joinWith "/" (plainParts false path) = body at still leads
  by_cases empty : path = ""
  · subst empty
    exact ⟨".", false, rfl, by decide, rfl, fun _ => rfl⟩
  by_cases none : body = ""
  · subst none
    refine ⟨".", Text.endsWith path "/", ?_, by decide, rfl, fun start => (leads start).symm ▸ rfl⟩
    simp [normalize, relative, made, empty]
  · refine ⟨body, Text.endsWith path "/", ?_, none, still, leads⟩
    simp [normalize, relative, made, empty, none]

theorem normalize_absolute (absolute : isAbsolute path = true) : ∃ body ends,
    normalize path = body ++ (if ends = true then "/" else "") ∧ body ≠ "" ∧
      isAbsolute body = true ∧ follow [] body = follow [] path := by
  have leads := follow_plainParts_root path
  generalize made : Text.joinWith "/" (plainParts true path) = body at leads
  have empty : path ≠ "" := by
    rintro rfl
    cases absolute
  by_cases none : body = ""
  · subst none
    exact ⟨"/", false, by simp [normalize, absolute, made, empty], by decide, rfl, leads⟩
  · have root : follow [] ("/" ++ body) = follow [] body := follow_slash [] "" body
    refine ⟨"/" ++ body, Text.endsWith path "/", ?_, by simp, ?_, root.trans leads⟩
    · simp [normalize, absolute, made, empty, none]
    · exact isAbsolute_append (by decide) body

theorem reach_of_relative (relative : isAbsolute path = false) (directory : String) :
    reach directory path = follow (follow [] directory) path := by
  rw [reach, relative]
  rfl

theorem reach_of_absolute (absolute : isAbsolute path = true) (directory : String) :
    reach directory path = follow [] path := by
  rw [reach, absolute]
  rfl

/-- A path that is made plain leads where it led. -/
theorem reach_normalize (directory path : String) :
    reach directory (normalize path) = reach directory path := by
  cases absolute : isAbsolute path with
  | false =>
    obtain ⟨body, ends, plain, some, still, leads⟩ := normalize_relative absolute
    have relative : isAbsolute (normalize path) = false := by
      rw [plain, isAbsolute_append some, still]
    rw [reach_of_relative relative, reach_of_relative absolute, plain, follow_slash_end, leads]
  | true =>
    obtain ⟨body, ends, plain, some, still, leads⟩ := normalize_absolute absolute
    have root : isAbsolute (normalize path) = true := by
      rw [plain, isAbsolute_append some, still]
    rw [reach_of_absolute root, reach_of_absolute absolute, plain, follow_slash_end, leads]

/-! ## Joined paths -/

theorem follow_filter (start : List String) (paths : List String) :
    (paths.filter (· != "")).foldl follow start = paths.foldl follow start := by
  induction paths generalizing start with
  | nil => rfl
  | cons p paths ih =>
    by_cases empty : p = ""
    · subst empty
      exact ih start
    · have kept : (p :: paths).filter (· != "") = p :: paths.filter (· != "") := by simp [empty]
      rw [kept, List.foldl_cons, List.foldl_cons, ih]

theorem follow_joined (start : List String) (first : String) (others : List String) :
    follow start (Text.joinWith "/" (first :: others)) = others.foldl follow (follow start first) := by
  induction others generalizing start first with
  | nil => simp [Text.joinWith]
  | cons second others ih =>
    rw [Text.joinWith_cons_cons, follow_slash, ih]
    rfl

theorem reach_joined (some : first ≠ "") (directory : String) (others : List String) :
    reach directory (Text.joinWith "/" (first :: others)) =
      others.foldl follow (reach directory first) := by
  rw [reach, isAbsolute_joinWith some, follow_joined]
  rfl

/-- Joined paths lead where they lead one after the other; only the first may begin at the root. -/
theorem reach_join (some : second ≠ "") (relative : isAbsolute second = false) (directory : String)
    (others : List String) : reach directory (join (first :: second :: others)) =
      others.foldl follow (follow (reach directory first) second) := by
  rw [join, reach_normalize]
  by_cases empty : first = ""
  · have kept : (first :: second :: others).filter (· != "") =
        second :: others.filter (· != "") := by
      simp [empty, some]
    rw [kept, reach_joined some, follow_filter, reach_of_relative relative, empty]
    rfl
  · have kept : (first :: second :: others).filter (· != "") =
        first :: (second :: others).filter (· != "") := by
      simp [empty]
    rw [kept, reach_joined empty, follow_filter]
    rfl

/-! ## Paths that lead downwards -/

/-- True of the paths that never lead above the place where they start. -/
def Descends (path : String) : Prop :=
  ".." ∉ plainParts false path

instance (path : String) : Decidable (Descends path) :=
  inferInstanceAs (Decidable (".." ∉ plainParts false path))

theorem follow_of_descends (descends : Descends path) (start : List String) :
    follow start path = (plainParts false path).reverse ++ start := by
  obtain ⟨k, names, parts, named⟩ := exists_plainParts path
  have none : k = 0 := by
    by_contra some
    exact descends (by simp [parts, some])
  subst none
  rw [follow_eq_foldl, parts]
  exact foldl_names named start

theorem foldl_up (k : Nat) : (List.replicate k "..").foldl (addPart true) [] = [] := by
  induction k with
  | zero => rfl
  | succ k ih => simpa [List.replicate_succ, addPart] using ih

/-- From right below the root, every other path leads back to the root first. -/
theorem exists_follow_of_not_descends (climbs : ¬Descends path) :
    ∃ names, ∀ n, IsName n → follow [n] path = names := by
  obtain ⟨k, names, parts, named⟩ := exists_plainParts path
  refine ⟨names.reverse, fun n isName => ?_⟩
  cases k with
  | zero =>
    refine absurd (fun up => ?_) climbs
    rw [parts] at up
    exact (named ".." (by simpa using up)).up rfl
  | succ k =>
    -- The first step upwards takes back the name, and the others stay at the root.
    rw [follow_eq_foldl, parts, List.foldl_append, List.replicate_succ, List.foldl_cons,
      addPart_up true isName, foldl_up, foldl_names named, List.append_nil]

end Path

end Walkthrough
