import Walkthrough.Request.Command
import Walkthrough.Proofs.Checks
import Walkthrough.Proofs.Text
import Walkthrough.Proofs.Words

/-!
# Commands read back as requests

`Command.write` spells a request as a line of words, and `Command.read` takes these words back. Of a
request whose URL begins with no hyphen it gives the request with its method in upper case, its
headers trimmed and cut at the first colon, and its credentials cut at the first colon. So a
request is read back as it was exactly when these changes leave it alone.
-/

namespace Walkthrough.Command

open Walkthrough.Checks

variable {d : Draft} {r : Request} {url : String} {rest : List String}

/-! ## The words of a command -/

def flag : Setting → String
  | .method => "-X"
  | .header => "-H"
  | .data => "-d"
  | .user => "-u"

/-- The options of a request with their values. -/
def values (r : Request) : List (Setting × String) :=
  r.headers.map (fun h => (.header, h.1 ++ ": " ++ h.2))
    ++ (r.credentials.map fun c => (Setting.user, c.username ++ ":" ++ c.password)).toList
    ++ (r.body.map fun b => (Setting.data, b)).toList

/-- The options of a request with their values, each with what separates it from the word before. -/
def spelling (r : Request) : List (List Char × String) :=
  (values r).flatMap fun e => [([' ', '\\', '\n', ' ', ' '], flag e.1), ([' '], e.2)]

theorem options_eq (r : Request) :
    options r = (values r).map fun e => flag e.1 ++ " " ++ Words.quote e.2 := by
  have header : "-H " = "-H" ++ " " := by decide
  have user : "-u " = "-u" ++ " " := by decide
  have data : "-d " = "-d" ++ " " := by decide
  unfold options values
  rw [header, user, data]
  cases r.credentials <;> cases r.body <;> simp [flag]

theorem quoteChars_of_plain {cs : List Char} (some : cs ≠ [])
    (plain : ∀ c ∈ cs, Words.isPlain c = true) : Words.quoteChars cs = cs := by
  simp [Words.quoteChars, some, List.all_eq_true.mpr plain]

theorem quoteChars_flag (s : Setting) : Words.quoteChars (flag s).toList = (flag s).toList := by
  cases s <;> decide

/-- All words but the method are quoted. -/
theorem toList_write (r : Request) : (write r).toList =
    Words.line "curl" [([' '], flag .method)] ++
      ' ' :: (r.method.toList ++ ' ' :: Words.line r.url (spelling r)) := by
  have start : ("curl -X " ++ r.method ++ " " ++ Words.quote r.url).toList =
      Words.line "curl" [([' '], flag .method)] ++
        ' ' :: (r.method.toList ++ ' ' :: Words.quoteChars r.url.toList) := by
    have curl : Words.quoteChars ['c', 'u', 'r', 'l'] = ['c', 'u', 'r', 'l'] := by decide
    have option : Words.quoteChars ['-', 'X'] = ['-', 'X'] := by decide
    simp [Words.line, Words.quote, curl, option, flag]
  have options : ((values r).map fun e => flag e.1 ++ " " ++ Words.quote e.2).flatMap
      (fun o => " \\\n  ".toList ++ o.toList) =
        (spelling r).flatMap fun e => e.1 ++ Words.quoteChars e.2.toList := by
    simp [spelling, List.flatMap_assoc, List.flatMap_map, Words.quote, quoteChars_flag]
  rw [write, Text.toList_joinWith_cons, options_eq, start, options]
  simp [Words.line]

/-- Words are separated by a space, or by a joined line in front of an option. -/
theorem separates_spelling : ∀ e ∈ spelling r, Words.Separates e.1 := by
  intro e mem
  simp only [spelling, List.mem_flatMap, List.mem_cons, List.not_mem_nil, or_false] at mem
  obtain ⟨_, _, rfl | rfl⟩ := mem
  · exact Words.separates_joinedLine
  · exact Words.separates_space

theorem map_spelling (r : Request) :
    (spelling r).map (·.2) = (values r).flatMap fun e => [flag e.1, e.2] := by
  simp [spelling, List.map_flatMap]

theorem split_write (r : Request) : Words.split (write r) =
    (Words.scan .bare none (r.method.toList ++ ' ' :: Words.line r.url (spelling r))).map
      (["curl", flag .method] ++ ·) := by
  have start (rest : List Char) : Words.line "curl" [([' '], flag .method)] ++ ' ' :: rest =
      Words.quoteChars "curl".toList ++
        ([' '] ++ (Words.quoteChars (flag .method).toList ++ ([' '] ++ rest))) := by
    simp [Words.line]
  rw [Words.split, toList_write, start, Words.scan_quoteChars, Words.separates_space,
    Words.scan_quoteChars, Words.separates_space]
  cases Words.scan .bare none (r.method.toList ++ ' ' :: Words.line r.url (spelling r)) <;>
    simp [Except.map]

theorem split_write_of_plain (named : r.method ≠ "")
    (plain : ∀ c ∈ r.method.toList, Words.isPlain c = true) :
    Words.split (write r) = .ok ("curl" :: flag .method :: r.method :: r.url ::
      (values r).flatMap fun e => [flag e.1, e.2]) := by
  have method : r.method.toList ++ ' ' :: Words.line r.url (spelling r) =
      Words.quoteChars r.method.toList ++ ([' '] ++ Words.line r.url (spelling r)) := by
    rw [quoteChars_of_plain (by simpa using named) plain]
    rfl
  rw [split_write, method, Words.scan_quoteChars, Words.separates_space,
    Words.scan_line r.url separates_spelling, map_spelling]
  simp [Except.map]

/-! ## Reading the words -/

theorem readWords_flag (d : Draft) (s : Setting) (value : String) (rest : List String) :
    readWords d (flag s :: value :: rest) = (d.set s value).bind fun d => readWords d rest := by
  cases s <;> rfl

theorem startsWith_hyphen_iff {f : String} :
    Text.startsWith f "-" = true ↔ f.toList.head? = some '-' :=
  Text.startsWith_iff_head? (by decide)

/-- Every option and every ignored flag begins with a hyphen. -/
theorem head?_of_setting? {f : String} {s : Setting} (h : setting? f = some s) :
    f.toList.head? = some '-' := by
  unfold setting? at h
  simp only [Bool.or_eq_true, beq_iff_eq] at h
  split at h
  next named => rcases named with rfl | rfl <;> decide
  split at h
  next named => rcases named with rfl | rfl <;> decide
  split at h
  next named => rcases named with ((rfl | rfl) | rfl) | rfl <;> decide
  split at h
  next named => rcases named with rfl | rfl <;> decide
  cases h

theorem head?_of_isIgnored {f : String} (h : isIgnored f = true) : f.toList.head? = some '-' := by
  simp only [isIgnored, Bool.or_eq_true, beq_iff_eq] at h
  rcases h with (((((rfl | rfl) | rfl) | rfl) | rfl) | rfl) | rfl <;> decide

theorem flagOf_eq_self {f : String} (start : f.toList.head? ≠ some '-') : flagOf f = (f, none) := by
  unfold flagOf
  split
  next spelled => simp [spelled] at start
  next spelled => simp [spelled] at start
  next => rfl

/-- A word that begins with no hyphen is a URL. -/
theorem Draft.word_eq (start : url.toList.head? ≠ some '-') :
    d.word url = match d.url with
      | some first => .error (.secondUrl first url)
      | none => .ok { d with url := some url } := by
  have known : ¬isIgnored url = true := fun ignored => start (head?_of_isIgnored ignored)
  have option : ¬Text.startsWith url "-" = true := fun hyphen =>
    start (startsWith_hyphen_iff.mp hyphen)
  cases given : d.url <;> simp [Draft.word, known, option, given]

theorem readWords_word (d : Draft) (start : url.toList.head? ≠ some '-') (rest : List String) :
    readWords d (url :: rest) = (d.word url).bind fun d => readWords d rest := by
  have unknown : setting? url = none :=
    Option.eq_none_iff_forall_ne_some.mpr fun s known => start (head?_of_setting? known)
  rw [readWords, flagOf_eq_self start]
  simp only [unknown]

theorem readWords_url (fresh : d.url = none) (start : url.toList.head? ≠ some '-')
    (rest : List String) :
    readWords d (url :: rest) = readWords { d with url := some url } rest := by
  rw [readWords_word d start, Draft.word_eq start, fresh]
  rfl

/-- A header as it is read back: cut at the first colon, and both parts trimmed. -/
def reread (h : Header) : Header :=
  let parts := Text.cut ':' (h.1 ++ ": " ++ h.2)
  (Text.trim parts.1, Text.trim (parts.2.getD ""))

/-- Credentials as they are read back: cut at the first colon. -/
def rereadCredentials (c : Credentials) : Credentials :=
  let parts := Text.cut ':' (c.username ++ ":" ++ c.password)
  ⟨parts.1, parts.2.getD ""⟩

theorem set_header (d : Draft) (h : Header) :
    d.set .header (h.1 ++ ": " ++ h.2) = .ok { d with headers := d.headers ++ [reread h] } := by
  have colon : ':' ∈ (h.1 ++ ": " ++ h.2).toList := by simp
  obtain ⟨before, after, spelled, absent⟩ := List.eq_append_cons_of_mem colon
  simp [Draft.set, reread, Text.cut_eq absent spelled]

theorem readWords_headers (d : Draft) (headers : List Header) (rest : List String) :
    readWords d ((headers.flatMap fun h => [flag .header, h.1 ++ ": " ++ h.2]) ++ rest) =
      readWords { d with headers := d.headers ++ headers.map reread } rest := by
  induction headers generalizing d with
  | nil => simp
  | cons h headers ih =>
    rw [List.flatMap_cons, List.append_assoc, List.cons_append, List.cons_append, readWords_flag,
      set_header]
    simp only [Except.bind, List.nil_append, ih]
    simp

/-- The draft after the options of a request, when the method and the URL have been read. -/
theorem readWords_values (d : Draft) (r : Request) :
    readWords d ((values r).flatMap fun e => [flag e.1, e.2]) =
      .ok { d with
        headers := d.headers ++ r.headers.map reread
        data := d.data ++ r.body.toList
        credentials := (r.credentials.map rereadCredentials).or d.credentials } := by
  have headers : (r.headers.map fun h => (Setting.header, h.1 ++ ": " ++ h.2)).flatMap
      (fun e => [flag e.1, e.2]) =
        r.headers.flatMap fun h => [flag .header, h.1 ++ ": " ++ h.2] := by
    rw [List.flatMap_map]
  unfold values
  rw [List.append_assoc, List.flatMap_append, headers, readWords_headers]
  cases r.credentials <;> cases r.body <;>
    simp [readWords_flag, Draft.set, Except.bind, readWords, rereadCredentials]

/-- The words of a request are read as the changed request. -/
theorem read_write (named : r.method ≠ "")
    (plain : ∀ c ∈ r.method.toList, Words.isPlain c = true)
    (start : r.url.toList.head? ≠ some '-') :
    read (write r) = .ok
      { method := Text.upper r.method, url := r.url, headers := r.headers.map reread
        body := r.body, credentials := r.credentials.map rereadCredentials } := by
  have drafted : readWords {} (flag .method :: r.method :: r.url ::
      (values r).flatMap fun e => [flag e.1, e.2]) = .ok
        { method := some (Text.upper r.method), url := some r.url
          headers := r.headers.map reread, data := r.body.toList
          credentials := r.credentials.map rereadCredentials } := by
    rw [readWords_flag, Draft.set, Except.bind, readWords_url rfl start, readWords_values]
    simp
  rw [read, split_write_of_plain named plain]
  simp only [drafted, Except.bind, Draft.request]
  cases r.body <;> simp [Text.joinWith, String.intercalate_singleton]

/-! ## What is read is never begun with a hyphen -/

/-- The URL of a draft, if it has one, begins with no hyphen. -/
def Draft.Sound (d : Draft) : Prop :=
  ∀ url, d.url = some url → url.toList.head? ≠ some '-'

theorem Draft.Sound.set {e : Draft} (h : d.Sound) {s : Setting} {value : String}
    (made : d.set s value = .ok e) : e.Sound := by
  cases s with
  | header =>
    simp only [Draft.set] at made
    split at made
    · cases made
    · cases made
      exact h
  | method | data | user =>
    cases made
    exact h

theorem Draft.Sound.word {e : Draft} (h : d.Sound) {f : String} (made : d.word f = .ok e) :
    e.Sound := by
  unfold Draft.word at made
  split at made
  · cases made
    exact h
  split at made
  · cases made
  next start =>
    split at made
    · cases made
    · cases made
      rintro url ⟨⟩
      exact fun hyphen => start (startsWith_hyphen_iff.mpr hyphen)

theorem Draft.Sound.readWords {e : Draft} {words : List String} (h : d.Sound)
    (made : Command.readWords d words = .ok e) : e.Sound := by
  fun_induction Command.readWords d words with
  | case1 d =>
    cases made
    exact h
  | case2 d w rest _ ih =>
    obtain ⟨next, first, made⟩ := bind_ok_iff.mp made
    exact ih next (h.word first) made
  | case3 d w rest s _ value _ ih =>
    obtain ⟨next, first, made⟩ := bind_ok_iff.mp made
    exact ih next (h.set first) made
  | case4 d w s _ value rest _ ih =>
    obtain ⟨next, first, made⟩ := bind_ok_iff.mp made
    exact ih next (h.set first) made
  | case5 => cases made

/-- No command gives a URL that begins with a hyphen: such a word is an option or a fault. -/
theorem head?_of_read {command : String} (h : read command = .ok r) :
    r.url.toList.head? ≠ some '-' := by
  unfold read at h
  split at h
  · cases h
  · obtain ⟨d, drafted, h⟩ := bind_ok_iff.mp h
    have sound : d.Sound := Draft.Sound.readWords (fun _ given => by cases given) drafted
    unfold Draft.request at h
    split at h
    · cases h
    next url given =>
      cases h
      exact sound url given
  · cases h

/-! ## Requests that are read back as they were -/

theorem reread_of_not_mem {h : Header} (absent : ':' ∉ h.1.toList) :
    reread h = (Text.trim h.1, Text.trim h.2) := by
  have spelled : (h.1 ++ ": " ++ h.2).toList = h.1.toList ++ ':' :: (' ' :: h.2.toList) := by simp
  have space : Text.trim (String.ofList (' ' :: h.2.toList)) = Text.trim h.2 := by
    rw [Text.trim, Text.trim, String.toList_ofList, Text.trimChars_space]
  rw [reread, Text.cut_eq absent spelled, String.ofList_toList]
  simp only [Option.getD_some, space]

theorem reread_eq_self_iff {h : Header} :
    reread h = h ↔ ':' ∉ h.1.toList ∧ Text.Trimmed h.1 ∧ Text.Trimmed h.2 := by
  have whole (absent : ':' ∉ h.1.toList) :
      reread h = h ↔ Text.Trimmed h.1 ∧ Text.Trimmed h.2 := by
    rw [reread_of_not_mem absent, Prod.ext_iff, Text.trim_eq_self_iff, Text.trim_eq_self_iff]
  constructor
  · intro same
    -- A name with a colon would be read back without it.
    have absent : ':' ∉ h.1.toList := by
      intro colon
      rw [← same] at colon
      exact Text.not_mem_cut ':' _ (Text.mem_of_mem_trim colon)
    exact ⟨absent, (whole absent).mp same⟩
  · rintro ⟨absent, trimmed⟩
    exact (whole absent).mpr trimmed

theorem rereadCredentials_eq_self_iff {c : Credentials} :
    rereadCredentials c = c ↔ ':' ∉ c.username.toList := by
  constructor
  · intro same colon
    rw [← same] at colon
    exact Text.not_mem_cut ':' _ colon
  · intro absent
    have spelled : (c.username ++ ":" ++ c.password).toList =
        c.username.toList ++ ':' :: c.password.toList := by simp
    rw [rereadCredentials, Text.cut_eq absent spelled, String.ofList_toList]
    simp

/-- Printing a request as a command and reading it back gives the request exactly where it can: when
the method has no lower case letter, the URL begins with no hyphen, no header name or user name has
a colon, and the names and values of the headers have no blank characters at their ends. -/
theorem read_write_eq_iff {r : Request} (named : r.method ≠ "")
    (plain : ∀ c ∈ r.method.toList, Words.isPlain c = true) :
    read (write r) = .ok r ↔
      (∀ c ∈ r.method.toList, c.isLower = false) ∧ r.url.toList.head? ≠ some '-' ∧
        (∀ h ∈ r.headers, ':' ∉ h.1.toList ∧ Text.Trimmed h.1 ∧ Text.Trimmed h.2) ∧
          ∀ c, r.credentials = some c → ':' ∉ c.username.toList := by
  have ascii : ∀ c ∈ r.method.toList, c.toNat < 0x80 := fun c mem =>
    Words.toNat_lt_of_isPlain (plain c mem)
  have same (start : r.url.toList.head? ≠ some '-') : read (write r) = .ok r ↔
      Text.upper r.method = r.method ∧ r.headers.map reread = r.headers ∧
        r.credentials.map rereadCredentials = r.credentials := by
    rw [read_write named plain start, Except.ok.injEq]
    constructor
    · intro equal
      exact ⟨congrArg Request.method equal, congrArg Request.headers equal,
        congrArg Request.credentials equal⟩
    · rintro ⟨method, headers, credentials⟩
      rw [method, headers, credentials]
  have headers : r.headers.map reread = r.headers ↔
      ∀ h ∈ r.headers, ':' ∉ h.1.toList ∧ Text.Trimmed h.1 ∧ Text.Trimmed h.2 := by
    have pointwise : r.headers.map reread = r.headers.map id ↔ ∀ h ∈ r.headers, reread h = h :=
      List.map_inj_left
    rw [List.map_id] at pointwise
    exact pointwise.trans (forall₂_congr fun h _ => reread_eq_self_iff)
  have credentials : r.credentials.map rereadCredentials = r.credentials ↔
      ∀ c, r.credentials = some c → ':' ∉ c.username.toList := by
    cases r.credentials with
    | none => simp
    | some c => simp [rereadCredentials_eq_self_iff]
  constructor
  · intro equal
    -- A URL with a hyphen in front is never read, whatever comes of the command.
    have start := head?_of_read equal
    obtain ⟨method, others⟩ := (same start).mp equal
    exact ⟨(Text.upper_eq_self_iff ascii).mp method, start, headers.mp others.1,
      credentials.mp others.2⟩
  · rintro ⟨method, start, names, users⟩
    exact (same start).mpr
      ⟨(Text.upper_eq_self_iff ascii).mpr method, headers.mpr names, credentials.mpr users⟩

/-- Quotes, a joined line and a second colon stand in the way of none of it. -/
theorem read_write_eq_of_quotes :
    read (write ⟨"POST", "https://as.test/it's", [("Accept", "a: 'b'")], some "$x \\\n '",
        some ⟨"cid", "a:b"⟩⟩) =
      .ok ⟨"POST", "https://as.test/it's", [("Accept", "a: 'b'")], some "$x \\\n '",
        some ⟨"cid", "a:b"⟩⟩ := by
  refine (read_write_eq_iff ?_ ?_).mpr ⟨?_, ?_, ?_, ?_⟩
  · simp
  · simp [Words.isPlain, Text.isWordChar, Text.isLetter]
  · simp
  · simp
  · simp [Text.Trimmed, Text.isBlank]
  · simp

end Walkthrough.Command
