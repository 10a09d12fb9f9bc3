import Mathlib.Data.String.Basic
import ResponseTypes.Proofs.Text.Replacing
import ResponseTypes.Script.Module

/-!
# Template literals

The text of an operation stands in a template literal.  `readTemplate` reads such a literal as JavaScript does, and an
escaped text is read as the text that was escaped (`readTemplate_escapeTemplate`): nothing in it ends the literal or starts
a substitution, since all that could is escaped (`escapesNext_of_special`).  Escaping goes through a text once; replacing
backslashes, backquotes and starts of substitutions one after the other comes to the same (`escapeTemplate_eq_replace`).
-/

namespace ResponseTypes.Script

set_option autoImplicit false

/-! ## Reading template literals -/

/-- What a backslash stands before in an escaped text: another one, a backquote or a dollar sign. -/
def isEscapable (c : Char) : Bool :=
  c == '\\' || c == '\x60' || c == '$'

/-- The value of a template literal from behind its opening backquote, and what follows the closing one.  A backslash makes
the character behind it stand for itself, and line ends count as line feeds.  There is no value if the literal does not end,
if a substitution starts in it, or if a backslash stands before any other character. -/
def readTemplate : List Char → Option (List Char × List Char)
  | [] => none
  | '\\' :: c :: rest =>
    if isEscapable c then (readTemplate rest).map (fun r => (c :: r.1, r.2)) else none
  | '\r' :: '\n' :: rest => (readTemplate rest).map (fun r => ('\n' :: r.1, r.2))
  | c :: rest =>
    if c = '\x60' then some ([], rest)
    else if c = '\\' ∨ c = '$' ∧ rest.head? = some '\x7b' then none
    else (readTemplate rest).map (fun r => ((if c = '\r' then '\n' else c) :: r.1, r.2))

/-- The character behind these is escaped: it follows a backslash that is not escaped itself. -/
def escapesNext (before : List Char) : Bool :=
  before.foldl (fun escaped c => c == '\\' && !escaped) false

/-- The character ends a template literal, or starts a substitution with the one behind it. -/
def isSpecial (c : Char) (next : Option Char) : Bool :=
  c == '\x60' || c == '$' && next == some '\x7b'

section Reading

variable {c : Char} {rest : List Char}

theorem readTemplate_close (rest : List Char) : readTemplate ('\x60' :: rest) = some ([], rest) := by
  rw [readTemplate] <;> simp

theorem readTemplate_escaped (h : isEscapable c = true) (rest : List Char) :
    readTemplate ('\\' :: c :: rest) = (readTemplate rest).map (fun r => (c :: r.1, r.2)) := by
  rw [readTemplate, if_pos h]

/-- A character that is neither a backslash nor a line end nor special is read as itself. -/
theorem readTemplate_plain (hslash : c ≠ '\\') (hreturn : c ≠ '\r') (hspecial : isSpecial c rest.head? = false) :
    readTemplate (c :: rest) = (readTemplate rest).map (fun r => (c :: r.1, r.2)) := by
  have hquote : c ≠ '\x60' := by
    rintro rfl
    cases hspecial
  have hdollar : ¬(c = '\\' ∨ c = '$' ∧ rest.head? = some '\x7b') := by
    rintro (rfl | ⟨rfl, hnext⟩)
    · exact hslash rfl
    · rw [hnext] at hspecial
      cases hspecial
  rw [readTemplate, if_neg hquote, if_neg hdollar, if_neg hreturn]
  · rintro _ _ rfl
    exact fun _ => hslash rfl
  · rintro _ rfl
    exact fun _ => hreturn rfl

end Reading

/-! ## Escaping -/

/-- A backslash is put before backslashes and special characters. -/
theorem escapeChar_eq (c : Char) (next : Option Char) :
    escapeChar c next = if c == '\\' || isSpecial c next then ['\\', c] else [c] := by
  unfold escapeChar isSpecial
  by_cases hslash : c = '\\'
  · simp [hslash]
  · by_cases hquote : c = '\x60'
    · simp [hquote]
    · by_cases hdollar : c = '$' <;> simp [hslash, hquote, hdollar]

theorem isEscapable_of_escaped {c : Char} {next : Option Char} (h : (c == '\\' || isSpecial c next) = true) :
    isEscapable c = true := by
  simp only [isSpecial, isEscapable, Bool.or_eq_true, Bool.and_eq_true] at h ⊢
  tauto

/-- Escaping brings no brace to the front, and leaves one there. -/
theorem head?_escapeTemplate (cs more : List Char) (hmore : more.head? ≠ some '\x7b') :
    (escapeTemplate cs ++ more).head? = some '\x7b' ↔ cs.head? = some '\x7b' := by
  cases cs with
  | nil => simpa [escapeTemplate] using hmore
  | cons c rest =>
    rw [escapeTemplate, escapeChar_eq, List.append_assoc, List.head?_cons]
    split
    · rename_i h
      have hbrace : c ≠ '\x7b' := by
        rintro rfl
        cases h
      simp [hbrace]
    · rfl

theorem isSpecial_escapeTemplate (c : Char) (cs more : List Char) (hmore : more.head? ≠ some '\x7b') :
    isSpecial c (escapeTemplate cs ++ more).head? = isSpecial c cs.head? := by
  rw [Bool.eq_iff_iff]
  simp only [isSpecial, Bool.or_eq_true, Bool.and_eq_true, beq_iff_eq, head?_escapeTemplate cs more hmore]

/-- What escaping writes for a character leaves what follows unescaped. -/
theorem escapesNext_escapeChar (c : Char) (next : Option Char) (after : List Char) :
    escapesNext (escapeChar c next ++ after) = escapesNext after := by
  have hblock : escapesNext (escapeChar c next) = false := by
    rw [escapeChar_eq]
    split
    · simp [escapesNext]
    · simp_all [escapesNext]
  unfold escapesNext at hblock ⊢
  rw [List.foldl_append, hblock]

/-- In an escaped text every backquote and every start of a substitution is escaped. -/
theorem escapesNext_of_special {cs before after : List Char} {c : Char} (h : escapeTemplate cs = before ++ c :: after)
    (hc : isSpecial c after.head? = true) : escapesNext before = true := by
  induction cs generalizing before with
  | nil => simp [escapeTemplate] at h
  | cons d rest ih =>
    have hskip := escapesNext_escapeChar d rest.head?
    rw [escapeTemplate] at h
    rw [escapeChar_eq] at h hskip
    split at h <;> rename_i hd
    · rw [if_pos hd] at hskip
      rcases before with _ | ⟨x, _ | ⟨y, before⟩⟩
      · obtain ⟨rfl, -⟩ := List.cons.inj h
        cases hc
      · obtain ⟨rfl, -⟩ := List.cons.inj h
        rfl
      · obtain ⟨hx, h⟩ := List.cons.inj h
        obtain ⟨hy, h⟩ := List.cons.inj h
        rw [← hx, ← hy]
        exact (hskip before).trans (ih h)
    · rw [if_neg hd] at hskip
      rcases before with _ | ⟨x, before⟩
      · -- the character is not escaped, so it was not special before what follows was escaped
        obtain ⟨rfl, hafter⟩ := List.cons.inj h
        have hsame := isSpecial_escapeTemplate d rest [] nofun
        rw [List.append_nil, show escapeTemplate rest = after from hafter, hc] at hsame
        rw [← hsame, Bool.or_true] at hd
        exact absurd rfl hd
      · obtain ⟨hx, h⟩ := List.cons.inj h
        rw [← hx]
        exact (hskip before).trans (ih h)

/-- An escaped text is read as the text that was escaped, up to the backquote that follows it. -/
theorem readTemplate_escapeTemplate {cs : List Char} (h : '\r' ∉ cs) (more : List Char) :
    readTemplate (escapeTemplate cs ++ '\x60' :: more) = some (cs, more) := by
  induction cs with
  | nil => exact readTemplate_close more
  | cons c rest ih =>
    rw [List.mem_cons, not_or] at h
    have hread := ih h.2
    rw [escapeTemplate, escapeChar_eq]
    split <;> rename_i hc
    · change readTemplate ('\\' :: c :: (escapeTemplate rest ++ _)) = _
      rw [readTemplate_escaped (isEscapable_of_escaped hc), hread]
      rfl
    · rw [Bool.or_eq_true, not_or, Bool.not_eq_true, Bool.not_eq_true] at hc
      have hspecial := isSpecial_escapeTemplate c rest ('\x60' :: more) (by simp)
      change readTemplate (c :: (escapeTemplate rest ++ _)) = _
      rw [readTemplate_plain (by simpa using hc.1) (Ne.symm h.1) (hspecial.trans hc.2), hread]
      rfl

/-- A backslash is put before backslashes and backquotes. -/
def escapeAlways (c : Char) : List Char :=
  if c == '\\' || c == '\x60' then ['\\', c] else [c]

theorem replace_escapable (cs : List Char) :
    Text.replace ['\x60'] ['\\', '\x60'] (Text.replace ['\\'] ['\\', '\\'] cs) = cs.flatMap escapeAlways := by
  rw [Text.replace_singleton, Text.replace_singleton, List.flatMap_assoc]
  refine List.flatMap_congr fun c _ => ?_
  unfold escapeAlways
  by_cases hslash : c = '\\'
  · subst hslash
    rfl
  · by_cases hquote : c = '\x60' <;> simp [hslash, hquote]

/-- What begins with a brace then began with one before. -/
theorem head?_escapeAlways {cs : List Char} (h : (cs.flatMap escapeAlways).head? = some '\x7b') :
    cs.head? = some '\x7b' := by
  cases cs with
  | nil => cases h
  | cons c rest =>
    rw [List.flatMap_cons, escapeAlways] at h
    split at h
    · cases h
    · exact h

/-- Replacing backslashes, then backquotes, then starts of substitutions comes to the same. -/
theorem escapeTemplate_eq_replace (cs : List Char) :
    escapeTemplate cs = Text.replace ['$', '\x7b'] ['\\', '$', '\x7b']
      (Text.replace ['\x60'] ['\\', '\x60'] (Text.replace ['\\'] ['\\', '\\'] cs)) := by
  rw [replace_escapable]
  induction cs with
  | nil => rfl
  | cons c rest ih =>
    rw [escapeTemplate, ih, List.flatMap_cons, escapeAlways]
    split <;> rename_i hc
    · have hchar : escapeChar c rest.head? = ['\\', c] := by
        rw [escapeChar_eq, if_pos]
        simp only [isSpecial, Bool.or_eq_true] at hc ⊢
        tauto
      have hdollar : ('$' == c) = false := by
        rw [beq_eq_false_iff_ne]
        rintro rfl
        cases hc
      rw [hchar]
      change _ = Text.replace _ _ ('\\' :: c :: _)
      rw [Text.replace_of_not_isPrefix rfl, Text.replace_of_not_isPrefix (by simp [List.isPrefixOf, hdollar])]
      rfl
    · by_cases hstart : c = '$' ∧ rest.head? = some '\x7b'
      · obtain ⟨rfl, hbrace⟩ := hstart
        obtain ⟨rest, rfl⟩ := List.head?_eq_some_iff.1 hbrace
        have hothers : ('\x7b' :: rest).flatMap escapeAlways = '\x7b' :: rest.flatMap escapeAlways := rfl
        have hpattern : ['$', '\x7b'].isPrefixOf ('$' :: '\x7b' :: rest.flatMap escapeAlways) = true := rfl
        rw [hothers, Text.replace_of_not_isPrefix rfl, List.singleton_append, Text.replace_of_isPrefix (by decide) hpattern]
        rfl
      · have hchar : escapeChar c rest.head? = [c] := by
          rw [escapeChar_eq, if_neg]
          simp only [isSpecial, Bool.or_eq_true, Bool.and_eq_true, beq_iff_eq] at hc ⊢
          tauto
        have hprefix : ['$', '\x7b'].isPrefixOf (c :: rest.flatMap escapeAlways) = false := by
          rw [Bool.eq_false_iff]
          intro h
          obtain ⟨more, hmore⟩ := List.isPrefixOf_iff_prefix.1 h
          obtain ⟨hdollar, hmore⟩ := List.cons.inj hmore
          exact hstart ⟨hdollar.symm, head?_escapeAlways (by rw [← hmore]; rfl)⟩
        rw [hchar, List.singleton_append, List.singleton_append, Text.replace_of_not_isPrefix hprefix]

/-! ## Constants of the operations file -/

/-- The literal in a constant is read as the text that the constant was written for, up to the constants that are added. -/
theorem readTemplate_sourceConstant {source : String} (h : '\r' ∉ source.toList) (name : String) (more : List String) :
    ∃ literal, (sourceConstant name source more).toList = ("const " ++ name ++ " = `").toList ++ literal ∧
      readTemplate literal = some (source.toList, (String.join (more.map (" + " ++ ·)) ++ ";\n").toList) :=
  ⟨_, by simp [sourceConstant, List.append_assoc], readTemplate_escapeTemplate h _⟩

/-- A text survives the template literal that it is escaped for: no backquote and no start of a substitution in it is left
unescaped, and if it has no carriage returns, it is what the literal is read as, whatever follows its closing backquote; so
are the texts of the constants that the operations file declares. -/
theorem source_survives_template (source : String) :
    (∀ before c after, escapeTemplate source.toList = before ++ c :: after → isSpecial c after.head? = true →
      escapesNext before = true) ∧
    ('\r' ∉ source.toList →
      (∀ more, readTemplate (escapeTemplate source.toList ++ '\x60' :: more) = some (source.toList, more)) ∧
      ∀ name constants, ∃ literal,
        (sourceConstant name source constants).toList = ("const " ++ name ++ " = `").toList ++ literal ∧
        readTemplate literal = some (source.toList, (String.join (constants.map (" + " ++ ·)) ++ ";\n").toList)) :=
  ⟨fun _ _ _ h hc => escapesNext_of_special h hc,
    fun h => ⟨readTemplate_escapeTemplate h, fun name constants => readTemplate_sourceConstant h name constants⟩⟩

/-- A text of a backslash, a backquote, a dollar sign and a start of a substitution survives. -/
theorem source_survives_template_marks :
    escapeTemplate "\\`$$\x7b".toList = "\\\\\\`$\\$\x7b".toList ∧
      (escapesNext "\\\\\\".toList = true ∧ escapesNext "\\\\\\`$\\".toList = true) ∧
      readTemplate "\\\\\\`$\\$\x7b`;".toList = some ("\\`$$\x7b".toList, ";".toList) := by
  obtain ⟨hescaped, hread⟩ := source_survives_template "\\`$$\x7b"
  have hwritten : escapeTemplate "\\`$$\x7b".toList = "\\\\\\`$\\$\x7b".toList := by decide
  rw [hwritten] at hescaped hread
  refine ⟨hwritten, ⟨hescaped _ '\x60' "$\\$\x7b".toList (by decide) (by decide), ?_⟩, ?_⟩
  · exact hescaped _ '$' ['\x7b'] (by decide) (by decide)
  · exact (hread (by decide)).1 [';']

end ResponseTypes.Script
