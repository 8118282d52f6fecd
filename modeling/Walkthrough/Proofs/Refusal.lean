import Walkthrough.Flow.Document
import Walkthrough.Proofs.Quoting

/-!
# Commands that are refused

A command that is not read has a fault, and every fault of a command is reported as an invalid
document. A text that leaves a quotation open is such a command, and no other text fails to fall into
words.
-/

namespace Walkthrough

namespace Command

variable {command : String} {f : Fault}

/-- A blank text has no words. -/
theorem split_of_allBlank (blank : Text.allBlank command = true) :
    Words.split command = .ok [] := by
  obtain ⟨_, between⟩ := Words.gap_of_isBlank (List.all_eq_true.mp blank)
  exact Words.scan_spelled (.ended between) rfl

/-- A command is refused with a fault. The fault is reported as an invalid document under the label of
the command, also when the command stands in a document. -/
structure Refused (command : String) (f : Fault) : Prop where
  unread : read command = .error f
  report : ∀ label, f.report label =
    { family := .config, kind := "InvalidDocument", message := label ++ ": " ++ f.message }
  inDocument : ∀ ids id, id ∈ ids → ∃ g, Flow.commandOf ids (id, command) = .error g ∧
    ∀ source, g.report source = f.report (source ++ ": curl_templates." ++ id)

theorem refused_of_read (unread : read command = .error f) (curl : f ≠ .notCurl) :
    Refused command f := by
  refine ⟨unread, fun label => rfl, fun ids id declared => ?_⟩
  refine ⟨.badCommand id f, ?_, fun source => rfl⟩
  -- A blank command gives no template, but its fault is that it is not curl.
  have visible : Text.allBlank command = false := by
    rw [← Bool.not_eq_true]
    intro blank
    rw [read, split_of_allBlank blank] at unread
    cases unread
    exact curl rfl
  have known : Flow.known ids (.entry "curl_templates" id) id = .ok () := by
    simp [Flow.known, declared]
  simp only [Flow.commandOf, known, visible, unread]
  rfl

end Command

namespace Words

/-- The words that a text spells are the words it is read as. A text that is not read leaves a
quotation open, and every text that does is refused for it. -/
theorem split_spelled (command : String) :
    (∀ words, Spelled false command.toList words → split command = .ok words) ∧
      (∀ q, split command = .error q ↔ LeftOpen q command.toList) ∧
        ∀ q, split command = .error q → Command.Refused command (.unclosed q) := by
  refine ⟨fun words spelled => ?_, fun q => split_error_iff, fun q failed => ?_⟩
  · exact scan_spelled spelled rfl
  · refine Command.refused_of_read ?_ (by simp)
    rw [Command.read, failed]

/-- Words in parts, on joined lines and without characters, and a quotation that hides the end of the
text behind a backslash. -/
theorem split_of_parts :
    Spelled false "\\\n curl\\\n 'a b'\"$x\\$\\q\\\n\"\\ c '' \\\r\n".toList
        ["curl", "a b$x$\\q c", ""] ∧
      split "\\\n curl\\\n 'a b'\"$x\\$\\q\\\n\"\\ c '' \\\r\n" =
        .ok ["curl", "a b$x$\\q c", ""] ∧
      LeftOpen .double "'a' \"b'\\".toList ∧
      Command.Refused "'a' \"b'\\" (.unclosed .double) := by
  have curl : Spelling ['c', 'u', 'r', 'l', '\\', '\n'] (some ['c', 'u', 'r', 'l']) :=
    @Spelling.plain ['c', 'u', 'r', 'l'] _ _ (by decide) (by simp [Text.isBlank])
      (.joint .newline .nil)
  have inside : InDouble ['$', 'x', '\\', '$', '\\', 'q', '\\', '\n']
      ['$', 'x', '$', '\\', 'q'] := by
    refine .plain (by decide) (by decide) (.plain (by decide) (by decide) ?_)
    exact .escaped (by decide) (.kept (by decide) (.joined .nil))
  have last : Spelling ['\\', ' ', 'c'] (some [' ', 'c']) :=
    @Spelling.item ['\\', ' '] _ _ _ (.escaped (by decide) (by decide))
      (@Spelling.plain ['c'] _ _ (by decide) (by simp [Text.isBlank]) .nil)
  have glued : Spelling ('\x27' :: (['a', ' ', 'b'] ++ ['\x27']) ++ _) _ :=
    .item (.single (by decide)) (.item (.double inside) last)
  have empty : Spelling ['\x27', '\x27'] (some []) := .item (@Item.single [] (by decide)) .nil
  have spelled : Spelled false "\\\n curl\\\n 'a b'\"$x\\$\\q\\\n\"\\ c '' \\\r\n".toList
      ["curl", "a b$x$\\q c", ""] := by
    have text : "\\\n curl\\\n 'a b'\"$x\\$\\q\\\n\"\\ c '' \\\r\n".toList =
        ['\\', '\n', ' ', 'c', 'u', 'r', 'l', '\\', '\n', ' ', '\x27', 'a', ' ', 'b', '\x27',
          '\x22', '$', 'x', '\\', '$', '\\', 'q', '\\', '\n', '\x22', '\\', ' ', 'c', ' ',
          '\x27', '\x27', ' ', '\\', '\r', '\n'] := by decide
    have space : Text.isBlank ' ' = true := by decide
    rw [text]
    refine .word (.joint .newline (.blank space .nil)) (fun _ => rfl) curl ?_
    refine .word (.blank space .nil) (fun _ => rfl) glued ?_
    refine .word (.blank space .nil) (fun _ => rfl) empty ?_
    exact .ended (.blank space (.joint .returned .nil))
  have unclosed : LeftOpen .double "'a' \"b'\\".toList := by
    have text : "'a' \"b'\\".toList = ['\x27', 'a', '\x27', ' '] ++ ['\x22', 'b', '\x27', '\\'] := by
      decide
    have front : Closed ['\x27', 'a', '\x27', ' '] :=
      @Closed.item _ ['a'] _ (.single (by decide)) (.blank (by decide) .nil)
    have inside : InDouble ['b', '\x27'] ['b', '\x27'] :=
      .plain (by decide) (by decide) (.plain (by decide) (by decide) .nil)
    exact ⟨_, _, text, front, .backslash inside⟩
  obtain ⟨_, failed, refused⟩ := split_spelled "'a' \"b'\\"
  exact ⟨spelled, (split_spelled _).1 _ spelled, unclosed,
    refused .double ((failed .double).mpr unclosed)⟩

end Words

end Walkthrough
