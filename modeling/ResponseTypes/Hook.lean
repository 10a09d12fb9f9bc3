import ResponseTypes.Failure
import ResponseTypes.Text.Replace

/-!
# Hooks

A `Hook` changes the content of a generated file before it is returned or written.  Whoever generates brings hooks along;
two are at hand: `Hook.header` puts a header in front, and `Hook.command` pipes the content through a program.
-/

namespace ResponseTypes

set_option autoImplicit false

/-- What a file's content is changed to, given the file's name and the content. -/
structure Hook where
  apply : String → String → Except Failure String

/-- The programs of a system: what is written for arguments, the program's name in front, and an input. -/
abbrev Programs := List String → String → Except Failure String

namespace Hook

/-- A header, with an empty line below it. -/
def header (text : String) : Hook where
  apply _ content := .ok (text ++ (if ['\n'].isSuffixOf text.toList then "\n" else "\n\n") ++ content)

/-- A program of the system, which reads the content and writes another.  Its arguments may name the file. -/
def command (programs : Programs) (arguments : List String) : Hook where
  apply file content := programs (arguments.map (fun a => Text.replaceIn a "\x7bfilename\x7d" file)) content

/-- The content of a file as the hooks change it, one after the other. -/
def applyAll (hooks : List Hook) (file content : String) : Except Failure String :=
  hooks.foldlM (fun content hook => hook.apply file content) content

end Hook

end ResponseTypes
