import Walkthrough.Proofs.Command
import Walkthrough.Proofs.Refusal

/-!
# The grammar of options

The words of a command behind `curl` are arguments in any order: options with their values, flags that
are ignored, and the URL. `Command.read` gives the request that they describe, whatever their order and
however they are spelled, and refuses a command without a URL or with two.
-/

namespace Walkthrough.Command

open Walkthrough.Text (CutAt Trims)

/-! ## Arguments -/

/-- The long flags of an option. -/
def longFlags : Setting → List String
  | .method => ["--request"]
  | .header => ["--header"]
  | .data => ["--data", "--data-raw", "--data-binary"]
  | .user => ["--user"]

def ignoredFlags : List String :=
  ["-s", "--silent", "-S", "--show-error", "--compressed", "-i", "--include"]

/-- One argument of a command. -/
inductive Argument
  /-- An option and its value in two words. -/
  | apart (s : Setting) (flag value : String)
  /-- An option and its value in one word, with an equals sign between them. -/
  | joined (s : Setting) (flag value : String)
  | ignored (flag : String)
  | url (word : String)

namespace Argument

def words : Argument → List String
  | apart _ flag value => [flag, value]
  | joined _ flag value => [flag ++ "=" ++ value]
  | ignored flag => [flag]
  | url word => [word]

/-- The value can be given to the option: a header has a colon. -/
def Fits : Setting → String → Prop
  | .header, value => ':' ∈ value.toList
  | _, _ => True

/-- The argument is spelled with a flag of its option, and the URL is not taken for a flag. -/
def Valid : Argument → Prop
  | apart s flag value => flag ∈ Command.flag s :: longFlags s ∧ Fits s value
  | joined s flag value => flag ∈ longFlags s ∧ Fits s value
  | ignored flag => flag ∈ ignoredFlags
  | url word => word.toList.head? ≠ some '-'

/-- The value that an argument gives to an option. -/
def given? (s : Setting) : Argument → Option String
  | apart t _ value => if t = s then some value else none
  | joined t _ value => if t = s then some value else none
  | _ => none

def url? : Argument → Option String
  | url word => some word
  | _ => none

end Argument

/-- The values that are given to an option, in order. -/
def given (s : Setting) (arguments : List Argument) : List String :=
  arguments.filterMap (Argument.given? s)

def urls (arguments : List Argument) : List String :=
  arguments.filterMap Argument.url?

/-! ## What arguments describe -/

/-- A value is split at its first colon, and both parts are trimmed. -/
def IsHeader (value : String) (h : Header) : Prop :=
  ∃ name content, CutAt ':' value name content ∧ Trims name h.1 ∧ Trims content h.2

/-- A value is split at its first colon; without a colon the password is empty. -/
def IsCredentials (value : String) (c : Credentials) : Prop :=
  CutAt ':' value c.username c.password ∨ ':' ∉ value.toList ∧ c = ⟨value, ""⟩

/-- The arguments describe the request: of methods and credentials the last one counts, of headers and
data all do. -/
structure Describes (arguments : List Argument) (url : String) (r : Request) : Prop where
  url : r.url = url
  method : r.method = match (given .method arguments).getLast? with
    | some m => Text.upper m
    | none => if given .data arguments = [] then "GET" else "POST"
  headers : List.Forall₂ IsHeader (given .header arguments) r.headers
  body : r.body = if given .data arguments = [] then none
    else some (Text.joinWith "&" (given .data arguments))
  credentials : Option.Rel IsCredentials (given .user arguments).getLast? r.credentials

/-! ## Reading one argument -/

variable {d : Draft} {s : Setting} {f value command : String} {a : Argument}
  {arguments : List Argument}

theorem flagOf_of_mem : ∀ f ∈ flag s :: longFlags s, flagOf f = (f, none) := by
  cases s <;> decide

theorem setting?_eq_some_iff : setting? f = some s ↔ f ∈ flag s :: longFlags s := by
  constructor
  · intro known
    unfold setting? at known
    simp only [Bool.or_eq_true, beq_iff_eq, or_assoc] at known
    split_ifs at known with method header data user <;> cases known
    · simpa [flag, longFlags] using method
    · simpa [flag, longFlags] using header
    · simpa [flag, longFlags] using data
    · simpa [flag, longFlags] using user
  · have table : ∀ f ∈ flag s :: longFlags s, setting? f = some s := by
      cases s <;> decide
    exact table f

theorem isIgnored_iff : isIgnored f = true ↔ f ∈ ignoredFlags := by
  simp [isIgnored, ignoredFlags, or_assoc]

/-- An ignored flag is a word of its own and sets nothing. -/
theorem flagOf_of_ignored : ∀ f ∈ ignoredFlags, flagOf f = (f, none) ∧ setting? f = none := by
  decide

/-- The value of a long flag goes from the first equals sign to the end of the word. -/
theorem flagOf_joined (long : f ∈ longFlags s) (value : String) :
    flagOf (f ++ "=" ++ value) = (f, some value) := by
  have table : ∀ f ∈ longFlags s, f.toList.take 2 = ['-', '-'] ∧ '=' ∉ f.toList := by
    cases s <;> decide
  obtain ⟨hyphens, absent⟩ := table f long
  have name : f.toList = '-' :: '-' :: f.toList.drop 2 := by
    conv_lhs => rw [← List.take_append_drop 2 f.toList, hyphens]
    rfl
  have cut : CutAt '=' (f ++ "=" ++ value) f value := ⟨by simp, absent⟩
  have spelled : (f ++ "=" ++ value).toList =
      '-' :: '-' :: (f.toList.drop 2 ++ '=' :: value.toList) := by
    rw [cut.1]
    conv_lhs => rw [name]
    rfl
  unfold flagOf
  simp only [spelled, Text.cut_of_cutAt cut]
  simp

/-- The draft after an option with a value that fits it. -/
def Draft.give (d : Draft) (value : String) : Setting → Draft
  | .method => { d with method := some (Text.upper value) }
  | .header =>
    let (name, content) := Text.cut ':' value
    { d with headers := d.headers ++ [(Text.trim name, Text.trim (content.getD ""))] }
  | .data => { d with data := d.data ++ [value] }
  | .user =>
    let (username, password) := Text.cut ':' value
    { d with credentials := some ⟨username, password.getD ""⟩ }

theorem Draft.set_eq (fits : Argument.Fits s value) : d.set s value = .ok (d.give value s) := by
  cases s with
  | header =>
    obtain ⟨name, content, cut⟩ := Text.exists_cutAt fits
    simp [set, give, Text.cut_of_cutAt cut]
  | method | data | user => rfl

/-- The draft after one argument. -/
def Draft.take (d : Draft) : Argument → Except Fault Draft
  | .apart s _ value => .ok (d.give value s)
  | .joined s _ value => .ok (d.give value s)
  | .ignored _ => .ok d
  | .url word =>
    match d.url with
    | some first => .error (.secondUrl first word)
    | none => .ok { d with url := some word }

theorem readWords_argument (valid : a.Valid) (d : Draft) (rest : List String) :
    readWords d (a.words ++ rest) = (d.take a).bind fun d => readWords d rest := by
  cases a with
  | apart s f value =>
    obtain ⟨known, fits⟩ := valid
    have read : readWords d (f :: value :: rest) =
        (d.set s value).bind fun d => readWords d rest := by
      rw [readWords, flagOf_of_mem f known]
      simp only [setting?_eq_some_iff.mpr known]
    rw [Draft.set_eq fits] at read
    exact read
  | joined s f value =>
    obtain ⟨long, fits⟩ := valid
    have known := setting?_eq_some_iff.mpr (List.mem_cons_of_mem (flag s) long)
    have read : readWords d ((f ++ "=" ++ value) :: rest) =
        (d.set s value).bind fun d => readWords d rest := by
      rw [readWords, flagOf_joined long]
      simp only [known]
    rw [Draft.set_eq fits] at read
    exact read
  | ignored f =>
    obtain ⟨whole, unknown⟩ := flagOf_of_ignored f valid
    have word : d.word f = .ok d := by rw [Draft.word, if_pos (isIgnored_iff.mpr valid)]
    show readWords d (f :: rest) = _
    rw [readWords, whole]
    simp only [unknown, word]
    rfl
  | url word =>
    have start : word.toList.head? ≠ some '-' := valid
    show readWords d (word :: rest) = _
    rw [readWords_word d start, Draft.word_eq start]
    rfl

/-! ## Reading all arguments -/

/-- What a draft has gained from arguments. -/
structure Draft.Gains (d : Draft) (arguments : List Argument) (e : Draft) : Prop where
  method : e.method = ((given .method arguments).getLast?.map Text.upper).or d.method
  url : e.url.toList = d.url.toList ++ urls arguments
  headers : ∃ hs, List.Forall₂ IsHeader (given .header arguments) hs ∧ e.headers = d.headers ++ hs
  data : e.data = d.data ++ given .data arguments
  credentials : ∃ last, Option.Rel IsCredentials (given .user arguments).getLast? last ∧
    e.credentials = last.or d.credentials

theorem rel_or {α β : Type} {R : α → β → Prop} {a a' : Option α} {b b' : Option β}
    (h : Option.Rel R a b) (other : Option.Rel R a' b') : Option.Rel R (a.or a') (b.or b') := by
  cases h with
  | some related => exact .some related
  | none => exact other

namespace Draft

variable {e e' : Draft} {more : List Argument}

theorem gains_nil (d : Draft) : d.Gains [] d :=
  { method := rfl
    url := by simp [urls]
    headers := ⟨[], .nil, by simp⟩
    data := by simp [given]
    credentials := ⟨none, .none, rfl⟩ }

theorem Gains.append (h : d.Gains arguments e) (next : e.Gains more e') :
    d.Gains (arguments ++ more) e' := by
  have both (s : Setting) : given s (arguments ++ more) = given s arguments ++ given s more :=
    List.filterMap_append
  obtain ⟨first, headers, grown⟩ := h.headers
  obtain ⟨second, others, grownToo⟩ := next.headers
  obtain ⟨last, names, kept⟩ := h.credentials
  obtain ⟨later, namesToo, keptToo⟩ := next.credentials
  constructor
  · rw [next.method, h.method, both, List.getLast?_append, Option.map_or, Option.or_assoc]
  · rw [next.url, h.url, urls, urls, urls, List.filterMap_append, List.append_assoc]
  · refine ⟨first ++ second, ?_, by rw [grownToo, grown, List.append_assoc]⟩
    rw [both]
    exact List.rel_append headers others
  · rw [next.data, h.data, both, List.append_assoc]
  · refine ⟨later.or last, ?_, by rw [keptToo, kept, Option.or_assoc]⟩
    rw [both, List.getLast?_append]
    exact rel_or namesToo names

theorem gains_give (fits : Argument.Fits s value) (d : Draft)
    (gives : ∀ t, a.given? t = if s = t then some value else none) (option : a.url? = none) :
    d.Gains [a] (d.give value s) := by
  have elsewhere : urls [a] = [] := by simp [urls, option]
  have alone (t : Setting) : given t [a] = if s = t then [value] else [] := by
    by_cases same : s = t <;> simp [given, gives, same]
  refine ⟨?_, ?_, ?_, ?_, ?_⟩
  · cases s <;> simp [alone, give]
  · cases s <;> simp [elsewhere, give]
  · cases s with
    | header =>
      obtain ⟨name, content, cut⟩ := Text.exists_cutAt fits
      have header : IsHeader value (Text.trim name, Text.trim content) :=
        ⟨name, content, cut, Text.trims_trim name, Text.trims_trim content⟩
      refine ⟨[(Text.trim name, Text.trim content)], ?_, by simp [give, Text.cut_of_cutAt cut]⟩
      rw [alone, if_pos rfl]
      exact .cons header .nil
    | method | data | user => exact ⟨[], by simp [alone], by simp [give]⟩
  · cases s <;> simp [alone, give]
  · cases s with
    | user =>
      rw [alone, if_pos rfl]
      by_cases colon : ':' ∈ value.toList
      · obtain ⟨username, password, cut⟩ := Text.exists_cutAt colon
        refine ⟨some ⟨username, password⟩, .some (Or.inl cut), ?_⟩
        simp [give, Text.cut_of_cutAt cut]
      · refine ⟨some ⟨value, ""⟩, .some (Or.inr ⟨colon, rfl⟩), ?_⟩
        simp [give, Text.cut_of_not_mem colon]
    | method | header | data => exact ⟨none, by simp [alone], rfl⟩

/-- One argument is taken with what it gives, unless it is a second URL. -/
theorem gains_take (valid : a.Valid) (d : Draft) :
    (∃ e, d.take a = .ok e ∧ d.Gains [a] e) ∨
      ∃ first second, d.url.toList ++ urls [a] = [first, second] ∧
        d.take a = .error (.secondUrl first second) := by
  cases a with
  | apart s f value => exact Or.inl ⟨_, rfl, gains_give valid.2 d (fun _ => rfl) rfl⟩
  | joined s f value => exact Or.inl ⟨_, rfl, gains_give valid.2 d (fun _ => rfl) rfl⟩
  | ignored f =>
    have same := gains_nil d
    exact Or.inl ⟨d, rfl, same.method, same.url, same.headers, same.data, same.credentials⟩
  | url word =>
    cases given : d.url with
    | some first => exact Or.inr ⟨first, word, rfl, by simp [take, given]⟩
    | none =>
      have same := gains_nil d
      refine Or.inl ⟨{ d with url := some word }, by simp [take, given], ?_⟩
      exact ⟨same.method, by rw [given]; rfl, same.headers, same.data, same.credentials⟩

end Draft

/-- The arguments are taken one after the other, up to a second URL. -/
theorem readWords_arguments (valid : ∀ a ∈ arguments, a.Valid) (d : Draft) :
    (∃ e, readWords d (arguments.flatMap Argument.words) = .ok e ∧ d.Gains arguments e) ∨
      ∃ first second more, d.url.toList ++ urls arguments = first :: second :: more ∧
        readWords d (arguments.flatMap Argument.words) = .error (.secondUrl first second) := by
  induction arguments generalizing d with
  | nil => exact Or.inl ⟨d, rfl, Draft.gains_nil d⟩
  | cons a arguments ih =>
    obtain ⟨first, later⟩ := List.forall_mem_cons.mp valid
    have split : urls (a :: arguments) = urls [a] ++ urls arguments := by
      simp only [urls, ← List.filterMap_append, List.singleton_append]
    rw [List.flatMap_cons, readWords_argument first, split, ← List.append_assoc]
    rcases Draft.gains_take first d with ⟨e, taken, gains⟩ | ⟨one, two, both, refused⟩
    · rw [taken, ← gains.url]
      rcases ih later e with ⟨final, read, others⟩ | twice
      · exact Or.inl ⟨final, read, gains.append others⟩
      · exact Or.inr twice
    · rw [both, refused]
      exact Or.inr ⟨one, two, _, rfl, rfl⟩

theorem describes_of_gains {e : Draft} {url : String} (h : Draft.Gains {} arguments e)
    (found : urls arguments = [url]) :
    ∃ r, e.request = .ok r ∧ Describes arguments url r := by
  have sole : e.url = some url := by
    have listed : e.url.toList = [url] := by simpa [found] using h.url
    exact Option.toList_eq_singleton_iff.mp listed
  have data : e.data = given .data arguments := by simpa using h.data
  have method : e.method = (given .method arguments).getLast?.map Text.upper := by
    simpa using h.method
  obtain ⟨headers, split, gathered⟩ := h.headers
  obtain ⟨last, names, kept⟩ := h.credentials
  refine ⟨_, by rw [Draft.request, sole], rfl, ?_, ?_, ?_, ?_⟩
  · simp only [method, data]
    cases (given .method arguments).getLast? with
    | some m => rfl
    | none => cases given .data arguments <;> rfl
  · simpa [gathered] using split
  · simp only [data]
    cases given .data arguments <;> rfl
  · simpa [kept] using names

/-- A command of `curl` and arguments is read as the request that the arguments describe, if exactly
one of them is a URL. Without a URL it is refused, and so it is with two. -/
theorem read_arguments
    (spelled : Words.split command = .ok ("curl" :: arguments.flatMap Argument.words))
    (valid : ∀ a ∈ arguments, a.Valid) :
    (∀ url, urls arguments = [url] → ∃ r, read command = .ok r ∧ Describes arguments url r) ∧
      (urls arguments = [] → Refused command .noUrl) ∧
        ∀ first second more, urls arguments = first :: second :: more →
          Refused command (.secondUrl first second) := by
  have start : read command =
      (readWords {} (arguments.flatMap Argument.words)).bind Draft.request := by
    rw [read, spelled]
    rfl
  rcases readWords_arguments valid {} with ⟨e, taken, gains⟩ | ⟨one, two, others, twice, refused⟩
  · rw [taken] at start
    have listed : e.url.toList = urls arguments := by simpa using gains.url
    refine ⟨fun url found => ?_, fun missing => ?_, fun first second more found => ?_⟩
    · rw [start]
      exact describes_of_gains gains found
    · have none : e.url = none := by
        rw [missing] at listed
        exact Option.toList_eq_nil_iff.mp listed
      refine refused_of_read ?_ (by simp)
      rw [start, Except.bind, Draft.request, none]
    · -- A draft has one URL at most.
      rw [found] at listed
      cases given : e.url <;> rw [given] at listed <;> cases listed
  · have listed : urls arguments = one :: two :: others := by simpa using twice
    rw [refused] at start
    refine ⟨fun url found => ?_, fun missing => ?_, fun first second more found => ?_⟩
    · rw [listed] at found
      cases found
    · rw [listed] at missing
      cases missing
    · rw [listed] at found
      cases found
      exact refused_of_read start (by simp)

/-- Values that look like flags, a value with an equals sign, and methods and users that are given
twice; a command without a URL and one with an empty word for its second. -/
theorem read_arguments_of_flags :
    (∃ r, read "curl -H 'A: b:c' --data=x=y -u -s https://as.test -d -X -X put --user=id --request a" =
        .ok r ∧ r.method = "A" ∧ r.body = some "x=y&-X" ∧ r.credentials = some ⟨"id", ""⟩) ∧
      Refused "curl --include -u -i" .noUrl ∧ Refused "curl a -S ''" (.secondUrl "a" "") := by
  have read := @read_arguments
    "curl -H 'A: b:c' --data=x=y -u -s https://as.test -d -X -X put --user=id --request a"
    [.apart .header "-H" "A: b:c", .joined .data "--data" "x=y", .apart .user "-u" "-s",
      .url "https://as.test", .apart .data "-d" "-X", .apart .method "-X" "put",
      .joined .user "--user" "id", .apart .method "--request" "a"] (by decide +kernel) (by
        simp [Argument.Valid, Argument.Fits, longFlags, flag, ignoredFlags])
  have missing := @read_arguments "curl --include -u -i"
    [.ignored "--include", .apart .user "-u" "-i"] (by decide) (by
      simp [Argument.Valid, Argument.Fits, longFlags, flag, ignoredFlags])
  have twice := @read_arguments "curl a -S ''" [.url "a", .ignored "-S", .url ""] (by decide) (by
    simp [Argument.Valid, ignoredFlags])
  obtain ⟨r, found, described⟩ := read.1 "https://as.test" rfl
  refine ⟨⟨r, found, ?_, ?_, ?_⟩, missing.2.1 rfl, twice.2.2 "a" "" [] rfl⟩
  · rw [described.method]
    decide
  · rw [described.body]
    decide
  · have names : Option.Rel IsCredentials (some "id") r.credentials := described.credentials
    generalize r.credentials = credentials at names
    cases names with
    | some named =>
      rcases named with cut | ⟨_, rfl⟩
      · have colon : ':' ∈ "id".toList := by
          rw [cut.1]
          exact List.mem_append_right _ List.mem_cons_self
        exact absurd colon (by decide)
      · rfl

end Walkthrough.Command
