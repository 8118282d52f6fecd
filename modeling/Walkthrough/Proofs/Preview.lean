import Walkthrough.Proofs.Command
import Walkthrough.Proofs.Literal
import Walkthrough.Proofs.Render
import Walkthrough.Proofs.Traverse
import Walkthrough.Session.Command

/-!
# The words of a preview

A preview shows the request of a step as a command. URL, headers, credentials and body are quoted, so
that each of them is one word of the command, whatever characters the document, the endpoints or the
responses have put into it. The method is not quoted. It is the method of the template, and it is one
word if and only if it is literal.
-/

namespace Walkthrough

namespace Command

open Words (Closed LeftOpen Literal)

variable {r : Request}

/-- The words behind the method. -/
def operands (r : Request) : List String :=
  [r.url] ++ (r.headers.flatMap fun h => ["-H", h.1 ++ ": " ++ h.2]) ++
    (r.credentials.toList.flatMap fun c => ["-u", c.username ++ ":" ++ c.password]) ++
      r.body.toList.flatMap fun b => ["-d", b]

theorem operands_eq (r : Request) :
    operands r = r.url :: (values r).flatMap fun e => [flag e.1, e.2] := by
  unfold operands values
  cases r.credentials <;> cases r.body <;> simp [flag, List.flatMap_map]

/-! ## What comes of the method -/

/-- A method that closes its quotations falls into words of its own. -/
theorem split_write_of_closed (closed : Closed r.method.toList) :
    ∃ words, Words.split r.method = .ok words ∧
      Words.split (write r) = .ok (["curl", "-X"] ++ words ++ operands r) := by
  obtain ⟨words, read, behind⟩ := Words.scan_space_of_closed closed
  refine ⟨words, read, ?_⟩
  rw [split_write, behind, Words.scan_line r.url separates_spelling, map_spelling, operands_eq]
  simp [Except.map, flag]

/-- A backslash at the end of a method escapes the space behind it, and the URL goes on with the last
word of the method. -/
theorem split_write_of_escape
    (mode : (Words.walk .bare none r.method.toList).2.1 = .escape) :
    ∃ ended begun, Words.split (write r) =
      .ok (["curl", "-X"] ++ (ended ++ [String.ofList (begun ++ ' ' :: r.url.toList)]) ++
        (operands r).tail) := by
  obtain ⟨ended, word, reached⟩ : ∃ ended word,
      Words.walk .bare none r.method.toList = (ended, .escape, word) :=
    ⟨_, _, by rw [← mode]⟩
  have space : Words.step .escape word ' ' = ([], .bare, some (' ' :: word.getD [])) := rfl
  refine ⟨ended, (word.getD []).reverse, ?_⟩
  rw [split_write, Words.scan_append, reached, Words.scan_cons space,
    Words.scan_line_behind _ r.url separates_spelling, map_spelling, operands_eq]
  simp [Except.map, flag]

/-- Where the method leaves no quotation open, it is one word if and only if it is literal. -/
theorem split_write_eq_iff (shut : ∀ q, ¬LeftOpen q r.method.toList) :
    Words.split (write r) = .ok (["curl", "-X", r.method] ++ operands r) ↔ Literal r.method := by
  rcases Words.closed_or_escape shut with closed | mode
  · obtain ⟨words, read, split⟩ := split_write_of_closed closed
    have cancel : words ++ operands r = [r.method] ++ operands r ↔ words = [r.method] :=
      List.append_left_inj (operands r)
    rw [split, ← Words.split_eq_self_iff, read]
    simpa using cancel
  · constructor
    · intro same
      obtain ⟨ended, begun, split⟩ := split_write_of_escape mode
      have meant : ["curl", "-X", r.method] ++ operands r =
          ["curl", "-X"] ++ ([r.method] ++ [r.url]) ++ (operands r).tail := by
        rw [operands_eq]
        rfl
      rw [split, meant, Except.ok.injEq] at same
      -- The last word of the method and the URL are one word, which is longer than the URL.
      have words := List.append_cancel_left (List.append_cancel_right same)
      have url := (List.append_inj' words rfl).2
      have length := congrArg String.length (List.singleton_inj.mp url)
      rw [String.length_ofList, List.length_append, List.length_cons, String.length_toList] at length
      omega
    · intro literal
      have outside := Words.outside_walk_iff.mpr (Words.closed_of_visible literal.2)
      rw [mode] at outside
      rcases outside with bare | returned
      · cases bare
      · cases returned

end Command

namespace Session

open Words (Closed LeftOpen Literal)

variable {s : Session} {id : String} {r : Request}

theorem method_of_render {endpoint : String → Option String}
    {value : Rule → Except RenderFault String} {template : Request} {rules : List Rule}
    (rendered : Template.render endpoint value template rules = .ok r) :
    r.method = template.method := by
  obtain ⟨filled, fills, rendered⟩ := Checks.bind_ok_iff.mp rendered
  obtain ⟨values, _, rendered⟩ := Checks.bind_ok_iff.mp rendered
  rw [(Template.traverse_ok_iff.mp rendered).method, (Template.traverse_ok_iff.mp fills).method]

/-- The preview of a step that renders is the command for its request. -/
theorem preview_of_render (rendered : s.render id = .ok (.ok r)) :
    s.preview id = .ok (.line (Command.write r)) := by
  obtain ⟨d, template, found, given, _⟩ := exists_template_of_render rendered
  have automatic : d.manual = false := by simp [Step.manual, given]
  simp [preview, found, automatic, rendered, Except.map]

/-- The preview of a step that renders is a command whose words are `curl`, `-X`, what comes of the
method, the URL and the options with their values. The method is that of the template. When it closes
its quotations, it falls into words of its own. It is one word when it is literal, and when it leaves no
quotation open, only then. -/
theorem preview_words (rendered : s.render id = .ok (.ok r)) :
    s.preview id = .ok (.line (Command.write r)) ∧
    (∃ d template, s.flow.step? id = some d ∧ d.template = some template ∧
      r.method = template.method) ∧
    (Literal r.method →
      Words.split (Command.write r) = .ok (["curl", "-X", r.method] ++ Command.operands r)) ∧
    (Closed r.method.toList → ∃ words, Words.split r.method = .ok words ∧
      Words.split (Command.write r) = .ok (["curl", "-X"] ++ words ++ Command.operands r)) ∧
    ((∀ q, ¬LeftOpen q r.method.toList) → ¬Literal r.method →
      Words.split (Command.write r) ≠ .ok (["curl", "-X", r.method] ++ Command.operands r)) := by
  refine ⟨preview_of_render rendered, ?_, ?_, Command.split_write_of_closed, ?_⟩
  · obtain ⟨d, template, found, given, filled⟩ := exists_template_of_render rendered
    exact ⟨d, template, found, given, method_of_render filled⟩
  · intro literal
    obtain ⟨words, read, split⟩ :=
      Command.split_write_of_closed (Words.closed_of_visible literal.2)
    rw [Words.split_eq_self_iff.mpr literal] at read
    cases read
    exact split
  · intro shut other split
    exact other ((Command.split_write_eq_iff shut).mp split)

/-- A document with one step that has a method of its own. -/
def methodDocument (method : String) : Value :=
  .mapping [("steps", .list [.mapping [("id", .text "list")]]),
    ("requests", .mapping [("list", .mapping
      [("method", .text method), ("url", .text "https://as.test/it's"),
        ("headers", .mapping [("Accept", .text "a \"b\"\n")]), ("body", .text "$x \\\n '")])])]

def methodRequest (method : String) : Request :=
  ⟨method, "https://as.test/it's", [("Accept", "a \"b\"\n")], some "$x \\\n '", none⟩

def methodFlow (method : String) : Flow :=
  { steps := [⟨"list", "list", "", [], [], [], some (methodRequest method), []⟩]
    endpointDefaults := [], schedule := ["list"], warnings := [] }

/-- Quotes, the end of a line, a backslash and a dollar sign in the URL, a header and the body. -/
theorem preview_words_of_quotes : ∃ (f : Flow) (s : Session) (r : Request),
    Flow.ofDocument (some (methodDocument "put")) = .ok f ∧ s.flow = f ∧
      s.render "list" = .ok (.ok r) ∧ s.preview "list" = .ok (.line (Command.write r)) ∧
      Words.split (Command.write r) = .ok ["curl", "-X", "PUT", "https://as.test/it's", "-H",
        "Accept: a \"b\"\n", "-d", "$x \\\n '"] := by
  have compiled : Flow.ofDocument (some (methodDocument "put")) = .ok (methodFlow "PUT") := rfl
  have rendered : ({ flow := methodFlow "PUT" } : Session).render "list" =
      .ok (.ok (methodRequest "PUT")) := rfl
  obtain ⟨shown, _, whole, _⟩ := preview_words rendered
  have literal : Literal "PUT" := ⟨by decide, by simp [Words.Visible, Text.isBlank]⟩
  exact ⟨_, _, _, compiled, rfl, rendered, shown, whole literal⟩

/-- A method with a space in it is shown as two words. -/
theorem method_shown_in_parts : ∃ (f : Flow) (s : Session) (r : Request),
    Flow.ofDocument (some (methodDocument "a b")) = .ok f ∧ s.flow = f ∧
      s.render "list" = .ok (.ok r) ∧ r.method = "A B" ∧
      s.preview "list" = .ok (.line (Command.write r)) ∧
      Words.split (Command.write r) = .ok (["curl", "-X", "A", "B"] ++ Command.operands r) ∧
      Words.split (Command.write r) ≠ .ok (["curl", "-X", r.method] ++ Command.operands r) := by
  have compiled : Flow.ofDocument (some (methodDocument "a b")) = .ok (methodFlow "A B") := rfl
  have rendered : ({ flow := methodFlow "A B" } : Session).render "list" =
      .ok (.ok (methodRequest "A B")) := rfl
  have shown : ({ flow := methodFlow "A B" } : Session).preview "list" =
      .ok (.line (Command.write (methodRequest "A B"))) := rfl
  have split : Words.split (Command.write (methodRequest "A B")) =
      .ok (["curl", "-X", "A", "B"] ++ Command.operands (methodRequest "A B")) := by
    decide +kernel
  refine ⟨_, _, _, compiled, rfl, rendered, rfl, shown, split, ?_⟩
  rw [split]
  decide

end Session

end Walkthrough
