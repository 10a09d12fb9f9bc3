import ResponseTypes.GraphQL.Reader.Definition
import ResponseTypes.Shape.Basic

/-!
# Names in documents

The response keys of a document that is read are names (`Document.keysNamed_of_read`), and so are the names of its fragments
and operations (`Document.named_of_read`).  No name is the key of a fragment reference (`isFragmentKey_of_isName`).
-/

namespace ResponseTypes.GraphQL

set_option autoImplicit false

/-- The text is a name. -/
def isName (text : String) : Bool :=
  match text.toList with
  | [] => false
  | c :: rest => isNameStart c && rest.all isNameChar

theorem isFragmentKey_of_isName {key : String} (h : isName key = true) : isFragmentKey key = false := by
  unfold isName at h
  unfold isFragmentKey
  split at h
  · cases h
  · rename_i c rest heq
    have hc : isNameStart c = true := (Bool.and_eq_true_iff.1 h).1
    have hdot : ('.' == c) = false := beq_eq_false_iff_ne.2 fun hc' => by
      subst hc'
      exact absurd hc (by decide)
    rw [heq]
    change (('.' == c) && _) = false
    rw [hdot, Bool.false_and]

/-! ## Documents -/

namespace Selection

mutual

/-- The response keys of a selection are names. -/
def KeysNamed : Selection → Prop
  | field head below => isName head.key = true ∧ ListKeysNamed below
  | spread _ _ => True
  | inline _ _ below => ListKeysNamed below

/-- The response keys of some selections are names. -/
def ListKeysNamed : List Selection → Prop
  | [] => True
  | s :: rest => KeysNamed s ∧ ListKeysNamed rest

end

theorem listKeysNamed_append {sels more : List Selection} (h : ListKeysNamed sels) (h' : ListKeysNamed more) :
    ListKeysNamed (sels ++ more) := by
  induction sels with
  | nil => exact h'
  | cons s rest ih => exact ⟨h.1, ih h.2⟩

end Selection

open Selection (ListKeysNamed)

/-- The response keys of a document are names. -/
structure Document.KeysNamed (d : Document) : Prop where
  fragments : ∀ f ∈ d.fragments, ListKeysNamed f.selections
  operations : ∀ op ∈ d.operations, ListKeysNamed op.selections

/-- The fragments and operations of a document have names for names. -/
structure Document.Named (d : Document) : Prop where
  fragments : ∀ f ∈ d.fragments, isName f.name = true
  operations : ∀ op ∈ d.operations, ∀ name ∈ op.name, isName name = true

/-! ## Tokens -/

/-- A lexeme that is to be a name is one. -/
def Lexeme.Named : Lexeme → Prop
  | .name text => isName text = true
  | _ => True

theorem named_of_lexeme? {c : Char} {rest : List Char} {l : Lexeme} {n : Nat} (h : lexeme? c rest = some (l, n)) :
    l.Named := by
  unfold lexeme? at h
  split at h
  · cases h
    trivial
  split at h
  · rename_i hc
    cases h
    change isName _ = true
    unfold isName
    rw [String.toList_ofList]
    exact Bool.and_eq_true_iff.2 ⟨hc, List.all_takeWhile⟩
  split at h
  · split at h <;> cases h
    trivial
  split at h
  · split at h
    · obtain ⟨body, -, h⟩ := Option.map_eq_some_iff.1 h
      cases h
      trivial
    · obtain ⟨body, -, h⟩ := Option.map_eq_some_iff.1 h
      cases h
      trivial
  split at h
  · obtain ⟨⟨length, fractional⟩, -, h⟩ := Option.map_eq_some_iff.1 h
    cases h
    cases fractional <;> trivial
  · cases h

theorem named_of_tokensFrom {offset : Nat} {cs : List Char} {ts : List Token} (h : tokensFrom offset cs = some ts) :
    ∀ t ∈ ts, t.lexeme.Named := by
  fun_induction tokensFrom offset cs generalizing ts with
  | case1 =>
    cases h
    exact fun t ht => absurd ht List.not_mem_nil
  | case2 offset c rest _ ih => exact ih h
  | case3 =>
    rename_i ih
    exact ih h
  | case4 => cases h
  | case5 =>
    rename_i hl _ ih
    obtain ⟨more, hmore, rfl⟩ := Option.map_eq_some_iff.1 h
    exact List.forall_mem_cons.2 ⟨named_of_lexeme? hl, ih hmore⟩

/-! ## Trees -/

mutual

/-- The names in a tree are names. -/
def Tree.Named : Tree → Prop
  | .leaf l _ => l.Named
  | .group _ items _ => TreesNamed items

/-- The names in some trees are names. -/
def TreesNamed : List Tree → Prop
  | [] => True
  | t :: rest => t.Named ∧ TreesNamed rest

end

theorem treesNamed_append {ts more : List Tree} : TreesNamed (ts ++ more) ↔ TreesNamed ts ∧ TreesNamed more := by
  induction ts with
  | nil => simp [TreesNamed]
  | cons t rest ih => simp [TreesNamed, ih, and_assoc]

theorem TreesNamed.reverse {ts : List Tree} (h : TreesNamed ts) : TreesNamed ts.reverse := by
  induction ts with
  | nil => exact h
  | cons t rest ih =>
    rw [List.reverse_cons]
    exact treesNamed_append.2 ⟨ih h.2, h.1, trivial⟩

theorem TreesNamed.of_suffix {ts rest : List Tree} (h : TreesNamed ts) (hrest : rest <:+ ts) : TreesNamed rest := by
  obtain ⟨before, rfl⟩ := hrest
  exact (treesNamed_append.1 h).2

theorem named_of_groupFrom {opened : List OpenGroup} {done : List Tree} {ts : List Token} {trees : List Tree}
    (h : groupFrom opened done ts = some trees) (hopened : ∀ g ∈ opened, TreesNamed g.before) (hdone : TreesNamed done)
    (hts : ∀ t ∈ ts, t.lexeme.Named) : TreesNamed trees := by
  induction ts generalizing opened done with
  | nil =>
    rw [groupFrom] at h
    split at h <;> cases h
    exact hdone.reverse
  | cons t rest ih =>
    obtain ⟨ht, hrest⟩ := List.forall_mem_cons.1 hts
    have hleaf : TreesNamed (.leaf t.lexeme ⟨t.start, t.stop⟩ :: done) := ⟨ht, hdone⟩
    rw [groupFrom] at h
    split at h
    · split at h
      · exact ih h (List.forall_mem_cons.2 ⟨hdone, hopened⟩) trivial hrest
      · split at h
        · cases h
        · rename_i g outer
          obtain ⟨hg, houter⟩ := List.forall_mem_cons.1 hopened
          split at h
          · exact ih h houter ⟨hdone.reverse, hg⟩ hrest
          · cases h
      · exact ih h hopened hleaf hrest
    · exact ih h hopened hleaf hrest

/-! ## Readers -/

theorem suffix_of_readDirectives {constant : Bool} {ts rest : List Tree} {ds : List Directive}
    (h : readDirectives constant ts = some (ds, rest)) : rest <:+ ts := by
  fun_induction readDirectives constant ts generalizing ds rest with
  | case1 => cases h
  | case2 s n s' items s'' more _ arguments ds' rest' hr _ ih =>
    cases h
    exact (ih hr).trans (List.suffix_append [_, _, _] more)
  | case3 => cases h
  | case4 s n s' more _ ih =>
    obtain ⟨⟨ds', rest'⟩, hr, h⟩ := Option.map_eq_some_iff.1 h
    cases h
    exact (ih hr).trans (List.suffix_append [_, _] more)
  | case5 => cases h
  | case6 =>
    cases h
    exact List.suffix_rfl

theorem suffix_of_readDotted {ts rest : List Tree} {d : Dotted} (h : readDotted ts = some (d, rest)) : rest <:+ ts := by
  unfold readDotted at h
  split at h
  · split at h
    · split at h <;> cases h
      exact List.suffix_append [_, _] _
    · cases h
      exact List.suffix_append [_] _
  · cases h
    exact List.suffix_rfl

theorem suffix_of_readFieldHead {ts rest : List Tree} {head : FieldHead} (h : readFieldHead ts = some (head, rest)) :
    rest <:+ ts := by
  unfold readFieldHead at h
  split at h
  · split at h
    · cases h
    · obtain ⟨_, -, h⟩ := Option.map_eq_some_iff.1 h
      cases h
      exact List.suffix_append [_, _, _, _] _
  · cases h
    exact List.suffix_append [_, _, _] _
  · split at h
    · cases h
    · obtain ⟨_, -, h⟩ := Option.map_eq_some_iff.1 h
      cases h
      exact List.suffix_append [_, _] _
  · cases h
    exact List.suffix_append [_] _
  · cases h

theorem isName_of_readFieldHead {ts rest : List Tree} {head : FieldHead} (hts : TreesNamed ts)
    (h : readFieldHead ts = some (head, rest)) : isName head.key = true := by
  unfold readFieldHead at h
  split at h
  · split at h
    · cases h
    · obtain ⟨_, -, h⟩ := Option.map_eq_some_iff.1 h
      cases h
      exact hts.1
  · cases h
    exact hts.1
  · split at h
    · cases h
    · obtain ⟨_, -, h⟩ := Option.map_eq_some_iff.1 h
      cases h
      exact hts.1
  · cases h
    exact hts.1
  · cases h

theorem keysNamed_of_selectionsOfTrees {ts : List Tree} {sels : List Selection} (hts : TreesNamed ts)
    (h : selectionsOfTrees ts = some sels) : ListKeysNamed sels := by
  fun_induction selectionsOfTrees ts generalizing sels with
  | case1 =>
    cases h
    trivial
  | case2 => cases h
  | case3 => cases h
  | case4 _ ts ts' directives rest hs fragment hd _ ih =>
    obtain ⟨more, hmore, rfl⟩ := Option.map_eq_some_iff.1 h
    refine ⟨trivial, ih (hts.2.of_suffix ?_) hmore⟩
    exact (suffix_of_readDirectives hs).trans (suffix_of_readDotted hd)
  | case5 => cases h
  | case6 =>
    rename_i hd hs ihb ih
    obtain ⟨below, hbelow, h⟩ := Option.bind_eq_some_iff.1 h
    obtain ⟨more, hmore, h⟩ := Option.bind_eq_some_iff.1 h
    cases h
    have hfollowing := hts.2.of_suffix ((suffix_of_readDirectives hs).trans (suffix_of_readDotted hd))
    exact ⟨ihb hfollowing.1 hbelow, ih hfollowing.2 hmore⟩
  | case7 => cases h
  | case8 => cases h
  | case9 => cases h
  | case10 => cases h
  | case11 =>
    rename_i hf _ _ _ _ _ _ _ hs ihb ih
    obtain ⟨below, hbelow, h⟩ := Option.bind_eq_some_iff.1 h
    obtain ⟨more, hmore, h⟩ := Option.bind_eq_some_iff.1 h
    cases h
    have hfollowing := hts.of_suffix ((suffix_of_readDirectives hs).trans (suffix_of_readFieldHead hf))
    have hkey := isName_of_readFieldHead hts hf
    exact ⟨⟨hkey, ihb hfollowing.1 hbelow⟩, ih hfollowing.2 hmore⟩
  | case12 =>
    rename_i hf _ _ _ _ hs _ ih
    obtain ⟨more, hmore, rfl⟩ := Option.map_eq_some_iff.1 h
    have hfollowing := hts.of_suffix ((suffix_of_readDirectives hs).trans (suffix_of_readFieldHead hf))
    have hkey := isName_of_readFieldHead hts hf
    exact ⟨⟨hkey, trivial⟩, ih hfollowing hmore⟩

/-! ## Definitions -/

/-- The response keys of a definition are names. -/
def Definition.KeysNamed : Definition → Prop
  | .operation op => ListKeysNamed op.selections
  | .fragment f => ListKeysNamed f.selections
  | _ => True

/-- An operation or a fragment has a name for a name, and its response keys are names. -/
def Definition.Named : Definition → Prop
  | .operation op => (∀ name ∈ op.name, isName name = true) ∧ (Definition.operation op).KeysNamed
  | .fragment f => isName f.name = true ∧ (Definition.fragment f).KeysNamed
  | _ => True

theorem keysNamed_of_readSelections {ts rest : List Tree} {sels : List Selection} (hts : TreesNamed ts)
    (h : readSelections ts = some (sels, rest)) : ListKeysNamed sels := by
  unfold readSelections at h
  split at h
  · split at h
    · cases h
    · obtain ⟨sels', hsels, h⟩ := Option.map_eq_some_iff.1 h
      cases h
      exact keysNamed_of_selectionsOfTrees hts.1 hsels
  · cases h

theorem suffix_of_readSelections {ts rest : List Tree} {sels : List Selection}
    (h : readSelections ts = some (sels, rest)) : rest <:+ ts := by
  unfold readSelections at h
  split at h
  · split at h
    · cases h
    · obtain ⟨_, -, h⟩ := Option.map_eq_some_iff.1 h
      cases h
      exact List.suffix_append [_] _
  · cases h

theorem suffix_of_readBracketed {α : Type} {bracket : Bracket} {item : List Tree → Read α} {ts rest : List Tree}
    {items : List α} (h : readBracketed bracket item ts = some (items, rest)) : rest <:+ ts := by
  unfold readBracketed at h
  split at h
  · split at h
    · obtain ⟨_, -, h⟩ := Option.map_eq_some_iff.1 h
      cases h
      exact List.suffix_append [_] _
    · cases h
      exact List.suffix_rfl
  · cases h
    exact List.suffix_rfl

theorem named_of_readOperation {kind : OperationKind} {ts rest : List Tree} {op : Operation} (hts : TreesNamed ts)
    (h : readOperation kind ts = some (op, rest)) : (Definition.operation op).Named ∧ rest <:+ ts := by
  unfold readOperation at h
  split at h
  rename_i name after hafter
  obtain ⟨⟨defs, ts₁⟩, hdefs, h⟩ := Option.bind_eq_some_iff.1 h
  obtain ⟨⟨directives, ts₂⟩, hdirectives, h⟩ := Option.bind_eq_some_iff.1 h
  obtain ⟨⟨sels, ts₃⟩, hsels, h⟩ := Option.map_eq_some_iff.1 h
  cases h
  have hsuffix : after <:+ ts := by
    split at hafter <;> cases hafter
    · exact List.suffix_append [_] _
    · exact List.suffix_rfl
  have hbefore := ((suffix_of_readDirectives hdirectives).trans (suffix_of_readBracketed hdefs)).trans hsuffix
  have hname : ∀ n ∈ name, isName n = true := by
    split at hafter <;> cases hafter
    · exact fun n hn => Option.mem_some_iff.1 hn ▸ hts.1
    · exact fun n hn => nomatch hn
  refine ⟨⟨hname, ?_⟩, (suffix_of_readSelections hsels).trans hbefore⟩
  exact keysNamed_of_readSelections (hts.of_suffix hbefore) hsels

theorem named_of_readFragment {ts rest : List Tree} {f : Fragment} (hts : TreesNamed ts)
    (h : readFragment ts = some (f, rest)) : (Definition.fragment f).Named ∧ rest <:+ ts := by
  unfold readFragment at h
  split at h
  · split at h
    · cases h
    · obtain ⟨⟨directives, ts₁⟩, hdirectives, h⟩ := Option.bind_eq_some_iff.1 h
      obtain ⟨⟨sels, ts₂⟩, hsels, h⟩ := Option.map_eq_some_iff.1 h
      cases h
      have hbefore := suffix_of_readDirectives hdirectives
      refine ⟨⟨hts.1, keysNamed_of_readSelections (hts.2.2.2.of_suffix hbefore) hsels⟩, ?_⟩
      exact ((suffix_of_readSelections hsels).trans hbefore).trans (List.suffix_append [_, _, _] _)
  · cases h

/-! ### Schemas -/

theorem suffix_of_readNamesFrom {separator : Char} {ts rest : List Tree} {names : List String}
    (h : readNamesFrom separator ts = some (names, rest)) : rest <:+ ts := by
  fun_induction readNamesFrom separator ts generalizing names rest with
  | case1 =>
    rename_i ih
    obtain ⟨⟨names', rest'⟩, hmore, h⟩ := Option.map_eq_some_iff.1 h
    cases h
    exact (ih hmore).trans (List.suffix_append [_, _] _)
  | case2 n _ c s more hc =>
    cases h
    exact List.suffix_append [_] _
  | case3 n _ rest' _ =>
    cases h
    exact List.suffix_append [_] _
  | case4 => cases h

theorem suffix_of_skipMark (c : Char) (ts : List Tree) : skipMark c ts <:+ ts := by
  unfold skipMark
  split
  · split
    · exact List.suffix_append [_] _
    · exact List.suffix_rfl
  · exact List.suffix_rfl

theorem suffix_of_readNames {separator : Char} {ts rest : List Tree} {names : List String}
    (h : readNames separator ts = some (names, rest)) : rest <:+ ts :=
  (suffix_of_readNamesFrom h).trans (suffix_of_skipMark separator ts)

theorem suffix_of_readInterfaces {ts rest : List Tree} {names : List String}
    (h : readInterfaces ts = some (names, rest)) : rest <:+ ts := by
  unfold readInterfaces at h
  split at h
  · exact (suffix_of_readNames h).trans (List.suffix_append [_] _)
  · cases h
    exact List.suffix_rfl

theorem suffix_of_readMembers {ts rest : List Tree} {names : List String} (h : readMembers ts = some (names, rest)) :
    rest <:+ ts := by
  unfold readMembers at h
  split at h
  · exact (suffix_of_readNames h).trans (List.suffix_append [_] _)
  · cases h
    exact List.suffix_rfl

theorem suffix_of_readTypeBody {keyword : String} {ts rest : List Tree} {body : TypeBody}
    (h : readTypeBody keyword ts = some (body, rest)) : rest <:+ ts := by
  unfold readTypeBody at h
  split at h
  · obtain ⟨⟨_, ts₁⟩, h₁, h⟩ := Option.map_eq_some_iff.1 h
    cases h
    exact suffix_of_readDirectives h₁
  · obtain ⟨⟨_, ts₁⟩, h₁, h⟩ := Option.bind_eq_some_iff.1 h
    obtain ⟨⟨_, ts₂⟩, h₂, h⟩ := Option.bind_eq_some_iff.1 h
    obtain ⟨⟨_, ts₃⟩, h₃, h⟩ := Option.map_eq_some_iff.1 h
    cases h
    exact ((suffix_of_readBracketed h₃).trans (suffix_of_readDirectives h₂)).trans (suffix_of_readInterfaces h₁)
  · obtain ⟨⟨_, ts₁⟩, h₁, h⟩ := Option.bind_eq_some_iff.1 h
    obtain ⟨⟨_, ts₂⟩, h₂, h⟩ := Option.bind_eq_some_iff.1 h
    obtain ⟨⟨_, ts₃⟩, h₃, h⟩ := Option.map_eq_some_iff.1 h
    cases h
    exact ((suffix_of_readBracketed h₃).trans (suffix_of_readDirectives h₂)).trans (suffix_of_readInterfaces h₁)
  · obtain ⟨⟨_, ts₁⟩, h₁, h⟩ := Option.bind_eq_some_iff.1 h
    obtain ⟨⟨_, ts₂⟩, h₂, h⟩ := Option.map_eq_some_iff.1 h
    cases h
    exact (suffix_of_readMembers h₂).trans (suffix_of_readDirectives h₁)
  · obtain ⟨⟨_, ts₁⟩, h₁, h⟩ := Option.bind_eq_some_iff.1 h
    obtain ⟨⟨_, ts₂⟩, h₂, h⟩ := Option.map_eq_some_iff.1 h
    cases h
    exact (suffix_of_readBracketed h₂).trans (suffix_of_readDirectives h₁)
  · obtain ⟨⟨_, ts₁⟩, h₁, h⟩ := Option.bind_eq_some_iff.1 h
    obtain ⟨⟨_, ts₂⟩, h₂, h⟩ := Option.map_eq_some_iff.1 h
    cases h
    exact (suffix_of_readBracketed h₂).trans (suffix_of_readDirectives h₁)
  · cases h

theorem named_of_readDirectiveDef {ts rest : List Tree} {d : Definition}
    (h : readDirectiveDef ts = some (d, rest)) : d.Named ∧ rest <:+ ts := by
  unfold readDirectiveDef at h
  split at h
  · obtain ⟨⟨_, ts₁⟩, h₁, h⟩ := Option.bind_eq_some_iff.1 h
    dsimp only at h
    split at h
    · rename_i hafter
      obtain ⟨⟨places, ts₂⟩, h₂, h⟩ := Option.bind_eq_some_iff.1 h
      split at h
      · cases h
        have hrepeatable := suffix_of_readNames h₂
        refine ⟨trivial, (hrepeatable.trans ?_).trans ((suffix_of_readBracketed h₁).trans (List.suffix_append [_, _] _))⟩
        split at hafter
        · exact hafter ▸ List.suffix_append [_, _] _
        · exact hafter ▸ List.suffix_append [_] _
      · cases h
    · cases h
  · cases h

theorem named_of_readSchemaDef {description : Option String} {ts rest : List Tree} {d : Definition}
    (h : readSchemaDef description ts = some (d, rest)) : d.Named ∧ rest <:+ ts := by
  unfold readSchemaDef at h
  split at h
  · obtain ⟨⟨_, ts₁⟩, h₁, h⟩ := Option.bind_eq_some_iff.1 h
    dsimp only at h
    split at h
    · obtain ⟨_, -, h⟩ := Option.map_eq_some_iff.1 h
      cases h
      have hbefore := suffix_of_readDirectives h₁
      exact ⟨trivial, ((List.suffix_append [_] _).trans hbefore).trans (List.suffix_append [_] _)⟩
    · cases h
  · obtain ⟨hnamed, hsuffix⟩ := named_of_readDirectiveDef h
    exact ⟨hnamed, hsuffix.trans (List.suffix_append [_] _)⟩
  · obtain ⟨⟨_, ts₁⟩, h₁, h⟩ := Option.map_eq_some_iff.1 h
    cases h
    exact ⟨trivial, (suffix_of_readTypeBody h₁).trans (List.suffix_append [_, _] _)⟩
  · cases h

theorem named_of_readExtension {ts rest : List Tree} {d : Definition} (h : readExtension ts = some (d, rest)) :
    d.Named ∧ rest <:+ ts := by
  unfold readExtension at h
  split at h
  · obtain ⟨⟨_, ts₁⟩, h₁, h⟩ := Option.bind_eq_some_iff.1 h
    obtain ⟨⟨_, ts₂⟩, h₂, h⟩ := Option.bind_eq_some_iff.1 h
    obtain ⟨-, h⟩ := Option.ite_none_right_eq_some.1 h
    cases h
    have hbefore := (suffix_of_readBracketed h₂).trans (suffix_of_readDirectives h₁)
    exact ⟨trivial, hbefore.trans (List.suffix_append [_] _)⟩
  · obtain ⟨⟨_, ts₁⟩, h₁, h⟩ := Option.bind_eq_some_iff.1 h
    obtain ⟨-, h⟩ := Option.ite_none_right_eq_some.1 h
    cases h
    exact ⟨trivial, (suffix_of_readTypeBody h₁).trans (List.suffix_append [_, _] _)⟩
  · cases h

theorem suffix_of_readDescription (ts : List Tree) : (readDescription ts).2 <:+ ts := by
  unfold readDescription
  split
  · exact List.suffix_append [_] _
  · exact List.suffix_append [_] _
  · exact List.suffix_rfl

/-! ### Documents -/

theorem named_of_readDefinition {ts rest : List Tree} {d : Definition} (hts : TreesNamed ts)
    (h : readDefinition ts = some (d, rest)) : d.Named ∧ rest <:+ ts := by
  unfold readDefinition at h
  split at h
  · obtain ⟨⟨op, _⟩, hop, h⟩ := Option.map_eq_some_iff.1 h
    cases h
    exact named_of_readOperation hts hop
  · split at h
    · obtain ⟨⟨f, _⟩, hf, h⟩ := Option.map_eq_some_iff.1 h
      cases h
      obtain ⟨hnamed, hsuffix⟩ := named_of_readFragment hts.2 hf
      exact ⟨hnamed, hsuffix.trans (List.suffix_append [_] _)⟩
    split at h
    · obtain ⟨hnamed, hsuffix⟩ := named_of_readExtension h
      exact ⟨hnamed, hsuffix.trans (List.suffix_append [_] _)⟩
    split at h
    · obtain ⟨⟨op, _⟩, hop, h⟩ := Option.map_eq_some_iff.1 h
      cases h
      obtain ⟨hnamed, hsuffix⟩ := named_of_readOperation hts.2 hop
      exact ⟨hnamed, hsuffix.trans (List.suffix_append [_] _)⟩
    · exact named_of_readSchemaDef h
  · have hdescription := suffix_of_readDescription ts
    split at h
    · cases h
    · rename_i heq
      rw [heq] at hdescription
      obtain ⟨hnamed, hsuffix⟩ := named_of_readSchemaDef h
      exact ⟨hnamed, hsuffix.trans hdescription⟩

theorem named_of_readDefinitionOf {text : List Char} {ts rest : List Tree} {d : Definition} (hts : TreesNamed ts)
    (h : readDefinitionOf text ts = some (d, rest)) : d.Named ∧ rest <:+ ts := by
  obtain ⟨⟨d', rest'⟩, hread, h⟩ := Option.map_eq_some_iff.1 h
  obtain ⟨hnamed, hsuffix⟩ := named_of_readDefinition hts hread
  dsimp only at h
  split at h
  · cases h
    refine ⟨?_, hsuffix⟩
    cases d' <;> exact hnamed
  · cases h
    exact ⟨hnamed, hsuffix⟩

theorem forall_of_readAll {α : Type} {item : List Tree → Read α} {P : α → Prop}
    (hitem : ∀ ts a rest, TreesNamed ts → item ts = some (a, rest) → P a ∧ rest <:+ ts) {ts : List Tree} {all : List α}
    (hts : TreesNamed ts) (h : readAll item ts = some all) : ∀ a ∈ all, P a := by
  fun_induction readAll item ts generalizing all with
  | case1 =>
    cases h
    exact fun a ha => absurd ha List.not_mem_nil
  | case2 => cases h
  | case3 t ts a rest hread _ ih =>
    obtain ⟨more, hmore, rfl⟩ := Option.map_eq_some_iff.1 h
    obtain ⟨ha, hsuffix⟩ := hitem _ a rest hts hread
    exact List.forall_mem_cons.2 ⟨ha, ih (hts.of_suffix hsuffix) hmore⟩
  | case4 => cases h

theorem forall_definitions_of_read {text : String} {d : Document} (h : Document.read text = some d) :
    ∀ definition ∈ d.definitions, definition.Named := by
  obtain ⟨ts, htokens, h⟩ := Option.bind_eq_some_iff.1 h
  obtain ⟨trees, htrees, h⟩ := Option.bind_eq_some_iff.1 h
  obtain ⟨definitions, hall, rfl⟩ := Option.map_eq_some_iff.1 h
  have hnamed : TreesNamed trees :=
    named_of_groupFrom htrees (fun _ hg => absurd hg List.not_mem_nil) trivial (named_of_tokensFrom htokens)
  unfold readSome at hall
  split at hall
  · cases hall
  · exact forall_of_readAll (fun _ _ _ => named_of_readDefinitionOf) hnamed hall

theorem Document.definition_of_fragment {d : Document} {f : Fragment} (h : f ∈ d.fragments) : .fragment f ∈ d.definitions := by
  obtain ⟨definition, hd, hf⟩ := List.mem_filterMap.1 h
  split at hf <;> cases hf
  exact hd

theorem Document.definition_of_operation {d : Document} {op : Operation} (h : op ∈ d.operations) :
    .operation op ∈ d.definitions := by
  obtain ⟨definition, hd, hop⟩ := List.mem_filterMap.1 h
  split at hop <;> cases hop
  exact hd

/-- The response keys of what is read are names. -/
theorem Document.keysNamed_of_read {text : String} {d : Document} (h : Document.read text = some d) : d.KeysNamed where
  fragments _ hf := (forall_definitions_of_read h _ (definition_of_fragment hf)).2
  operations _ hop := (forall_definitions_of_read h _ (definition_of_operation hop)).2

/-- What is read has names for names. -/
theorem Document.named_of_read {text : String} {d : Document} (h : Document.read text = some d) : d.Named where
  fragments _ hf := (forall_definitions_of_read h _ (definition_of_fragment hf)).1
  operations _ hop := (forall_definitions_of_read h _ (definition_of_operation hop)).1

end ResponseTypes.GraphQL
