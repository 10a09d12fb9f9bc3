import Mathlib.Data.List.Chain
import ResponseTypes.Proofs.Text.Replacing
import ResponseTypes.Script.Comment

/-!
# Comments that end where they should

No star is followed by a slash in an escaped text, nor in any part of it (`Unclosed`, `unclosed_safeText`).  Splitting such
a text into lines, cutting blanks off and joining the lines again brings no star before a slash, so that a doc comment is
closed at its end and nowhere else (`isDocComment_docComment`).
-/

namespace ResponseTypes

set_option autoImplicit false

/-! ## Parts of texts -/

namespace Text

theorem isPrefix_dropEndWhile (p : Char → Bool) (cs : List Char) : dropEndWhile p cs <+: cs := by
  unfold dropEndWhile
  rw [← List.reverse_suffix, List.reverse_reverse]
  exact List.dropWhile_suffix p

theorem isInfix_trim (cs : List Char) : trim cs <:+: cs :=
  (isPrefix_dropEndWhile isBlank _).isInfix.trans (List.dropWhile_suffix isBlank).isInfix

/-- A text starts with its first line. -/
theorem isPrefix_of_lines_eq_cons {cs line : List Char} {more : List (List Char)} (h : lines cs = line :: more) :
    line <+: cs := by
  fun_induction lines cs generalizing line more with
  | case1 => cases h
  | case2 rest ih =>
    obtain ⟨rfl, -⟩ := List.cons.inj h
    exact List.nil_prefix
  | case3 c rest hreturn hend ih =>
    obtain ⟨rfl, -⟩ := List.cons.inj h
    exact List.nil_prefix
  | case4 c rest hreturn hend hrest ih =>
    obtain ⟨rfl, -⟩ := List.cons.inj h
    exact List.prefix_append [c] rest
  | case5 c rest hreturn hend line' more' hrest ih =>
    obtain ⟨rfl, -⟩ := List.cons.inj h
    exact List.cons_prefix_cons.2 ⟨rfl, ih hrest⟩

/-- Lines are parts of the text. -/
theorem isInfix_of_mem_lines {cs line : List Char} (h : line ∈ lines cs) : line <:+: cs := by
  fun_induction lines cs with
  | case1 => cases h
  | case2 rest ih =>
    rcases List.mem_cons.1 h with rfl | h
    · exact List.nil_infix
    · exact (ih h).trans (List.suffix_append ['\r', '\n'] rest).isInfix
  | case3 c rest hreturn hend ih =>
    rcases List.mem_cons.1 h with rfl | h
    · exact List.nil_infix
    · exact List.infix_cons (ih h)
  | case4 c rest hreturn hend hrest ih =>
    rw [List.mem_singleton.1 h]
    exact (List.prefix_append [c] rest).isInfix
  | case5 c rest hreturn hend line' more' hrest ih =>
    rcases List.mem_cons.1 h with rfl | h
    · exact (List.cons_prefix_cons.2 ⟨rfl, isPrefix_of_lines_eq_cons hrest⟩).isInfix
    · exact List.infix_cons (ih (by rw [hrest]; exact List.mem_cons_of_mem _ h))

end Text

namespace Script

/-! ## Texts in which nothing closes a comment -/

/-- No star is followed by a slash. -/
def Unclosed (cs : List Char) : Prop :=
  cs.IsChain (fun a b => a = '*' → b ≠ '/')

theorem Unclosed.part {part cs : List Char} (h : Unclosed cs) (hpart : part <:+: cs) : Unclosed part := by
  obtain ⟨before, after, rfl⟩ := hpart
  exact (List.IsChain.left_of_append h).right_of_append

/-- Nothing is closed across a character that is neither a star nor a slash. -/
theorem Unclosed.append_cons {cs cs' : List Char} (h : Unclosed cs) {c : Char} (hc : c ≠ '*' ∧ c ≠ '/') (h' : Unclosed cs') :
    Unclosed (cs ++ c :: cs') := by
  refine List.IsChain.append h (h'.cons fun _ _ hstar => absurd hstar hc.1) fun _ _ b hb _ => ?_
  rw [← Option.some.inj hb]
  exact hc.2

/-- Where a text is closed, a star stands before a slash. -/
theorem Unclosed.false {cs before after : List Char} (h : Unclosed cs) (hclosed : cs = before ++ '*' :: '/' :: after) :
    False := by
  subst hclosed
  exact (List.isChain_cons_cons.1 (List.IsChain.right_of_append h)).1 rfl rfl

/-- Escaping leaves the first character. -/
theorem head?_escaped (cs : List Char) : (Text.replace ['*', '/'] ['*', '\\', '/'] cs).head? = cs.head? := by
  cases cs with
  | nil => rfl
  | cons c rest =>
    cases h : ['*', '/'].isPrefixOf (c :: rest) with
    | false => rw [Text.replace_of_not_isPrefix h]; rfl
    | true =>
      obtain ⟨more, hmore⟩ := List.isPrefixOf_iff_prefix.1 h
      rw [Text.replace_of_isPrefix (List.cons_ne_nil _ _) h, ← hmore]
      rfl

theorem unclosed_escaped (cs : List Char) : Unclosed (Text.replace ['*', '/'] ['*', '\\', '/'] cs) := by
  induction hlength : cs.length using Nat.strong_induction_on generalizing cs with
  | _ n ih =>
    subst hlength
    cases cs with
    | nil => exact List.isChain_nil
    | cons c rest =>
      cases h : ['*', '/'].isPrefixOf (c :: rest) with
      | true =>
        rw [Text.replace_of_isPrefix (List.cons_ne_nil _ _) h]
        have hrest := ih ((c :: rest).drop 2).length (by rw [List.length_drop, List.length_cons]; omega) _ rfl
        have hslash : Unclosed ('/' :: Text.replace ['*', '/'] ['*', '\\', '/'] ((c :: rest).drop 2)) :=
          List.IsChain.cons hrest fun _ _ h => absurd h (by decide)
        exact Unclosed.append_cons (List.isChain_singleton '*') (by decide) hslash
      | false =>
        rw [Text.replace_of_not_isPrefix h]
        refine List.IsChain.cons (ih _ (Nat.lt_succ_self _) rest rfl) ?_
        rintro b hb rfl rfl
        rw [head?_escaped] at hb
        obtain ⟨more, rfl⟩ := List.head?_eq_some_iff.1 hb
        cases h

theorem unclosed_safeText (cs : List Char) : Unclosed (safeText cs) :=
  (unclosed_escaped cs).part (Text.isInfix_trim _)

/-! ## Doc comments -/

/-- A text that starts a doc comment and closes it at its end, and nowhere else. -/
def IsDocComment (text : String) : Prop :=
  (∃ body, text.toList = "/**".toList ++ body ++ "*/".toList) ∧
    ∀ before after, text.toList = before ++ "*/".toList ++ after → after = []

/-- What is closed by its last character is closed nowhere else if nothing is before that character. -/
theorem isDocComment_of_unclosed (body : List Char) (h : Unclosed ("/**".toList ++ (body ++ ['*']))) :
    IsDocComment (String.ofList ("/**".toList ++ (body ++ ['*', '/']))) := by
  unfold IsDocComment
  rw [String.toList_ofList, show "*/".toList = ['*', '/'] from rfl]
  refine ⟨⟨body, by rw [List.append_assoc]⟩, fun before after heq => ?_⟩
  rcases List.eq_nil_or_concat' after with rfl | ⟨after, last, rfl⟩
  · rfl
  · have hends : ("/**".toList ++ (body ++ ['*'])) ++ ['/'] = (before ++ '*' :: '/' :: after) ++ [last] := by
      simpa using heq
    exact (h.false (List.append_inj_left' hends rfl)).elim

theorem unclosed_star : Unclosed [' ', '*'] := by
  unfold Unclosed
  decide

theorem unclosed_commentLine {line : List Char} (h : Unclosed line) : Unclosed (commentLine line) :=
  Unclosed.part (unclosed_star.append_cons (by decide) h) (Text.isPrefix_dropEndWhile _ _).isInfix

theorem unclosed_commentBody {ls : List (List Char)} (h : ∀ line ∈ ls, Unclosed line) : Unclosed (commentBody ls) := by
  fun_induction commentBody ls with
  | case1 => exact List.isChain_nil
  | case2 line => exact unclosed_commentLine (h line (List.mem_singleton_self _))
  | case3 line rest hrest ih =>
    exact (unclosed_commentLine (h line List.mem_cons_self)).append_cons (by decide)
      (ih fun line hline => h line (List.mem_cons_of_mem _ hline))

theorem isDocComment_commentOf {ls : List (List Char)} (h : ∀ line ∈ ls, Unclosed line) :
    IsDocComment (String.ofList (commentOf ls)) := by
  have hstart : Unclosed "/**".toList := by
    unfold Unclosed
    decide
  have hstop : Unclosed ['*'] := List.isChain_singleton '*'
  unfold commentOf
  split
  · rename_i line
    have hline := (h line (List.mem_singleton_self _)).append_cons (c := ' ') (by decide) hstop
    have hall := hstart.append_cons (c := ' ') (by decide) hline
    have hwhole := isDocComment_of_unclosed (' ' :: (line ++ [' '])) (by simpa using hall)
    simpa using hwhole
  · have hbody := (unclosed_commentBody h).append_cons (c := '\n') (by decide) unclosed_star
    have hall := hstart.append_cons (c := '\n') (by decide) hbody
    have hwhole := isDocComment_of_unclosed ('\n' :: (commentBody ls ++ ['\n', ' '])) (by simpa using hall)
    simpa using hwhole

theorem isDocComment_docComment (text : String) : IsDocComment (docComment text) :=
  isDocComment_commentOf fun _ hline => (unclosed_safeText _).part (Text.isInfix_of_mem_lines hline)

/-- No text closes its doc comment early, and neither do the description, the file and the source of a type, of which its
comment is made if there is one. -/
theorem comments_close_at_end :
    (∀ text, IsDocComment (docComment text)) ∧
      ∀ o description file source, typeDoc o description file source = none ∨
        ∃ comment, typeDoc o description file source = some comment ∧ IsDocComment comment := by
  refine ⟨isDocComment_docComment, fun o description file source => ?_⟩
  unfold typeDoc
  dsimp only
  split
  · exact .inr ⟨_, rfl, isDocComment_docComment _⟩
  · exact .inl rfl

example : docComment "a */ b\x85/" = "/**\n * a *\\/ b\n * /\n */" := by decide

end Script

end ResponseTypes
