import Mathlib.Data.List.Perm.Subperm
import Mathlib.Data.List.Shortlex
import Mathlib.Data.Set.Function
import ResponseTypes.Naming.Case
import ResponseTypes.Naming.Short
import ResponseTypes.Proofs.Assoc

/-!
# Short names

A short name is known by its place and the other way round (`reversedShort_placeOf`, `placeOf_reversedShort`), and names stand
in the order of their places (`shortlex_reversedShort`).  So no more names in a row are reserved than there are reserved
words, and the search for a free name ends (`finds_nextFree`).  A table of abbreviations holds free names that come before
the place of the next one (`Abbreviations.Sound`), a call leaves it so, and what was given once stays.
-/

namespace ResponseTypes.Naming

set_option autoImplicit false

variable {m n index : Nat} {cs : List Char}

/-! ## Letters -/

theorem isSmall_letter : ∀ n < 26, isSmall (letter n) = true := by
  decide

theorem toNat_letter : ∀ n < 26, (letter n).toNat = 97 + n := by
  decide

theorem letter_lt_letter (h : m < n) (hn : n < 26) : letter m < letter n := by
  change (letter m).toNat < (letter n).toNat
  rw [toNat_letter m (h.trans hn), toNat_letter n hn]
  omega

theorem toNat_of_isSmall {c : Char} (h : isSmall c = true) : 97 ≤ c.toNat ∧ c.toNat < 97 + 26 := by
  change (decide ('a'.val ≤ c.val) && decide (c.val ≤ 'z'.val)) = true at h
  simp only [Bool.and_eq_true, decide_eq_true_eq, UInt32.le_iff_toNat_le] at h
  exact ⟨h.1, Nat.lt_succ_of_le h.2⟩

/-! ## Places of words -/

/-- The place of a word over the letters a to z, its last letter first; the empty word has the place zero. -/
def placeOf : List Char → Nat
  | [] => 0
  | c :: rest => 26 * placeOf rest + (c.toNat - 97) + 1

theorem reversedShort_zero : reversedShort 0 = [] := by
  rw [reversedShort, if_pos rfl]

theorem reversedShort_succ (n : Nat) : reversedShort (n + 1) = letter (n % 26) :: reversedShort (n / 26) := by
  rw [reversedShort]
  simp

theorem isSmall_of_mem_reversedShort (n : Nat) : ∀ c ∈ reversedShort n, isSmall c = true := by
  fun_induction reversedShort n with
  | case1 => nofun
  | case2 n h ih => exact List.forall_mem_cons.2 ⟨isSmall_letter _ (Nat.mod_lt _ (by decide)), ih⟩

theorem placeOf_reversedShort (n : Nat) : placeOf (reversedShort n) = n := by
  fun_induction reversedShort n with
  | case1 => rfl
  | case2 n h ih =>
    rw [placeOf, ih, toNat_letter _ (Nat.mod_lt _ (by decide))]
    omega

theorem reversedShort_placeOf (h : ∀ c ∈ cs, isSmall c = true) : reversedShort (placeOf cs) = cs := by
  induction cs with
  | nil => exact reversedShort_zero
  | cons c rest ih =>
    obtain ⟨hc, hrest⟩ := List.forall_mem_cons.1 h
    obtain ⟨hle, hlt⟩ := toNat_of_isSmall hc
    have hmod : (26 * placeOf rest + (c.toNat - 97)) % 26 = c.toNat - 97 := by omega
    have hdiv : (26 * placeOf rest + (c.toNat - 97)) / 26 = placeOf rest := by omega
    rw [placeOf, reversedShort_succ, hmod, hdiv, ih hrest, letter, Nat.add_sub_cancel' hle, Char.ofNat_toNat]

/-- The words over the letters a to z that are not empty. -/
def shortNames : Set String :=
  {name | name ≠ "" ∧ ∀ c ∈ name.toList, isSmall c = true}

theorem toList_short (n : Nat) : (short n).toList = (reversedShort (n + 1)).reverse := by
  rw [short, String.toList_ofList]

theorem short_mem_shortNames (n : Nat) : short n ∈ shortNames := by
  refine ⟨fun hempty => ?_, fun c hc => ?_⟩
  · have hlist := toList_short n
    rw [hempty, reversedShort_succ] at hlist
    simp at hlist
  · rw [toList_short, List.mem_reverse] at hc
    exact isSmall_of_mem_reversedShort _ c hc

theorem short_injective : Function.Injective short := by
  intro m n h
  have hlist := congrArg String.toList h
  rw [toList_short, toList_short, List.reverse_inj] at hlist
  have hplace := congrArg placeOf hlist
  rw [placeOf_reversedShort, placeOf_reversedShort] at hplace
  exact Nat.succ.inj hplace

theorem exists_short {name : String} (h : name ∈ shortNames) : ∃ n, short n = name := by
  obtain ⟨hne, hsmall⟩ := h
  have hword : reversedShort (placeOf name.toList.reverse) = name.toList.reverse :=
    reversedShort_placeOf fun c hc => hsmall c (List.mem_reverse.1 hc)
  cases hplace : placeOf name.toList.reverse with
  | zero =>
    rw [hplace, reversedShort_zero] at hword
    exact absurd (String.toList_eq_nil_iff.1 (List.reverse_eq_nil_iff.1 hword.symm)) hne
  | succ n => exact ⟨n, by rw [short, ← hplace, hword, List.reverse_reverse, String.ofList_toList]⟩

/-! ## The order of places -/

/-- Words of which one comes first keep their order if a letter is put behind each. -/
theorem shortlex_append_singleton {v w : List Char} (h : List.Shortlex (· < ·) v w) (c d : Char) :
    List.Shortlex (· < ·) (v ++ [c]) (w ++ [d]) := by
  rcases List.shortlex_def.1 h with hlt | ⟨hlen, hlex⟩
  · exact .of_length_lt (by simpa using hlt)
  · refine .of_lex (by simp [hlen]) ?_
    clear h
    induction hlex with
    | nil => simp at hlen
    | cons _ ih => exact .cons (ih (by simpa using hlen))
    | rel hab => exact .rel hab

theorem shortlex_reversedShort (h : m < n) :
    List.Shortlex (· < ·) (reversedShort m).reverse (reversedShort n).reverse := by
  induction n using Nat.strong_induction_on generalizing m with
  | _ n ih =>
    obtain ⟨n, rfl⟩ := Nat.exists_eq_add_one_of_ne_zero (Nat.ne_zero_of_lt h)
    rw [reversedShort_succ n, List.reverse_cons]
    cases m with
    | zero => exact .of_length_lt (by simp [reversedShort_zero])
    | succ m =>
      rw [reversedShort_succ m, List.reverse_cons]
      have hlt : m < n := Nat.lt_of_succ_lt_succ h
      rcases Nat.lt_or_eq_of_le (Nat.div_le_div_right (c := 26) hlt.le) with hdiv | hdiv
      · exact shortlex_append_singleton (ih _ (by omega) hdiv) _ _
      · -- the words are the same up to the last letter
        rw [hdiv]
        refine List.Shortlex.append_left ?_ _
        rw [List.shortlex_singleton_iff]
        exact letter_lt_letter (by omega) (Nat.mod_lt _ (by decide))

theorem lt_iff_shortlex : m < n ↔ List.Shortlex (· < ·) (short m).toList (short n).toList := by
  have hmono : ∀ {k l : Nat}, k < l → List.Shortlex (· < ·) (short k).toList (short l).toList := by
    intro k l h
    rw [toList_short, toList_short]
    exact shortlex_reversedShort (Nat.succ_lt_succ h)
  refine ⟨hmono, fun h => ?_⟩
  rcases Nat.lt_trichotomy m n with hlt | rfl | hgt
  · exact hlt
  · exact absurd h (Std.Asymm.asymm _ _ h)
  · exact absurd h (Std.Asymm.asymm _ _ (hmono hgt))

/-! ## The search for a free name -/

/-- The search for a name that is not reserved, for as long as it takes: from a place on, with the name that it ends at and
the place after it. -/
inductive Finds : Nat → String × Nat → Prop
  | free {index : Nat} : short index ∉ reservedWords → Finds index (short index, index + 1)
  | reserved {index : Nat} {found : String × Nat} : short index ∈ reservedWords → Finds (index + 1) found →
    Finds index found

namespace Finds

variable {found found' : String × Nat}

theorem unique (h : Finds index found) (h' : Finds index found') : found = found' := by
  induction h with
  | free hfree =>
    cases h' with
    | free => rfl
    | reserved hreserved => exact absurd hreserved hfree
  | reserved hreserved _ ih =>
    cases h' with
    | free hfree => exact absurd hreserved hfree
    | reserved _ h' => exact ih h'

/-- What is found stands right before the place where the next search starts. -/
theorem eq_short (h : Finds index found) :
    ∃ k, index ≤ k ∧ found = (short k, k + 1) ∧ short k ∉ reservedWords := by
  induction h with
  | @free index hfree => exact ⟨index, le_rfl, rfl, hfree⟩
  | reserved _ _ ih =>
    obtain ⟨k, hle, hfound, hfree⟩ := ih
    exact ⟨k, Nat.le_of_succ_le hle, hfound, hfree⟩

end Finds

/-- Of more names in a row than there are reserved words, one is free. -/
theorem exists_free (index : Nat) :
    ∃ k, index ≤ k ∧ k ≤ index + reservedWords.length ∧ short k ∉ reservedWords := by
  by_contra hnone
  have hnodup : ((List.range' index (reservedWords.length + 1)).map short).Nodup :=
    (List.nodup_range' 1).map short_injective
  have hsubset : (List.range' index (reservedWords.length + 1)).map short ⊆ reservedWords := by
    intro name hname
    obtain ⟨k, hk, rfl⟩ := List.mem_map.1 hname
    obtain ⟨hle, hlt⟩ := List.mem_range'_1.1 hk
    by_contra hfree
    exact hnone ⟨k, hle, by omega, hfree⟩
  have hlength := (hnodup.subperm hsubset).length_le
  rw [List.length_map, List.length_range'] at hlength
  omega

/-- With a free name within reach, the bound on the search is never met. -/
theorem finds_nextFree_of_reach {tries : Nat}
    (h : ∃ k, index ≤ k ∧ k ≤ index + tries ∧ short k ∉ reservedWords) : Finds index (nextFree tries index) := by
  obtain ⟨k, hle, hreach, hfree⟩ := h
  induction tries generalizing index with
  | zero =>
    obtain rfl : k = index := by omega
    exact .free hfree
  | succ tries ih =>
    rw [nextFree]
    by_cases hreserved : short index ∈ reservedWords
    · have hne : k ≠ index := fun heq => hfree (heq ▸ hreserved)
      rw [if_pos (List.contains_iff_mem.2 hreserved)]
      exact .reserved hreserved (ih (by omega) (by omega))
    · rw [if_neg (mt List.contains_iff_mem.1 hreserved)]
      exact .free hreserved

theorem finds_nextFree (index : Nat) : Finds index (nextFree reservedWords.length index) :=
  finds_nextFree_of_reach (exists_free index)

/-- Between `dn` and `dp` stands a reserved word. -/
example : nextFree reservedWords.length 118 = ("dp", 120) := by decide +kernel

/-! ## Calls -/

namespace Abbreviations

variable {a : Abbreviations} {text text' name : String} {result result' : String × Abbreviations}

/-- A call whose search has no bound, with the name that it gives and the table after it. -/
inductive Gives (a : Abbreviations) (text : String) : String × Abbreviations → Prop
  | known {name : String} : Assoc.get? a.names text = some name → Gives a text (name, a)
  | new {name : String} {next : Nat} : Assoc.get? a.names text = none → Finds a.next (name, next) →
    Gives a text (name, ⟨Assoc.insert a.names text name, next⟩)

theorem gives_get (a : Abbreviations) (text : String) : Gives a text (a.get text) := by
  unfold get
  split
  · rename_i name hname
    exact .known hname
  · rename_i hnone
    exact .new hnone (finds_nextFree a.next)

theorem Gives.unique (h : Gives a text result) (h' : Gives a text result') : result = result' := by
  cases h with
  | known hname =>
    cases h' with
    | known hname' => rw [Option.some.inj (hname.symm.trans hname')]
    | new hnone => cases hname.symm.trans hnone
  | new hnone hfinds =>
    cases h' with
    | known hname => cases hname.symm.trans hnone
    | new _ hfinds' =>
      cases hfinds.unique hfinds'
      rfl

/-- Every call ends, and in one way only. -/
theorem gives_iff : Gives a text result ↔ a.get text = result :=
  ⟨fun h => (gives_get a text).unique h, fun h => h ▸ gives_get a text⟩

/-- What a table that calls led to holds: free names from before the place of the next one, each for one text. -/
structure Sound (a : Abbreviations) : Prop where
  given : ∀ {text name : String}, Assoc.get? a.names text = some name →
    ∃ k < a.next, name = short k ∧ short k ∉ reservedWords
  distinct : ∀ {text text' name : String}, Assoc.get? a.names text = some name → Assoc.get? a.names text' = some name →
    text = text'

theorem sound_empty : Sound empty :=
  ⟨nofun, nofun⟩

/-- A call leaves a table as it should be: the name of a new text comes after all names that were given. -/
theorem Gives.sound (h : Gives a text result) (ha : Sound a) : Sound result.2 := by
  cases h with
  | known => exact ha
  | @new name next _ hfinds =>
    obtain ⟨k, hle, hfound, hfree⟩ := hfinds.eq_short
    obtain ⟨rfl, rfl⟩ := Prod.mk.inj hfound
    have hnew : ∀ {other : String}, Assoc.get? a.names other ≠ some (short k) := by
      intro other hother
      obtain ⟨k', hlt, heq, -⟩ := ha.given hother
      exact absurd (short_injective heq) (Nat.ne_of_gt (lt_of_lt_of_le hlt hle))
    constructor
    · intro other name hother
      rw [Assoc.get?_insert] at hother
      split at hother
      · exact ⟨k, Nat.lt_succ_self k, (Option.some.inj hother).symm, hfree⟩
      · obtain ⟨k', hlt, hname⟩ := ha.given hother
        exact ⟨k', Nat.lt_succ_of_lt (lt_of_lt_of_le hlt hle), hname⟩
    · intro other other' name hother hother'
      rw [Assoc.get?_insert] at hother hother'
      split at hother <;> split at hother'
      · rename_i heq heq'
        exact heq.symm.trans heq'
      · exact absurd (hother'.trans hother.symm) hnew
      · exact absurd (hother.trans hother'.symm) hnew
      · exact ha.distinct hother hother'

/-- A name stays with its text. -/
theorem Gives.keeps (h : Gives a text result) (hname : Assoc.get? a.names text' = some name) :
    Assoc.get? result.2.names text' = some name := by
  cases h with
  | known => exact hname
  | new hnone =>
    rw [Assoc.get?_insert_of_ne, hname]
    rintro rfl
    cases hname.symm.trans hnone

/-- The name that a call gives is the text's name from then on. -/
theorem Gives.get?_names (h : Gives a text result) : Assoc.get? result.2.names text = some result.1 := by
  cases h with
  | known hname => exact hname
  | new => exact Assoc.get?_insert_self _ _ _

theorem sound_getAll (ha : Sound a) (texts : List String) : Sound (a.getAll texts).2 := by
  induction texts generalizing a with
  | nil => exact ha
  | cons text rest ih => exact ih ((gives_get a text).sound ha)

theorem keeps_getAll (hname : Assoc.get? a.names text = some name) (texts : List String) :
    Assoc.get? (a.getAll texts).2.names text = some name := by
  induction texts generalizing a with
  | nil => exact hname
  | cons text' rest ih => exact ih ((gives_get a text').keeps hname)

/-- The names that calls give are those that their texts have in the end. -/
theorem map_some_getAll (a : Abbreviations) (texts : List String) :
    (a.getAll texts).1.map some = texts.map (Assoc.get? (a.getAll texts).2.names) := by
  induction texts generalizing a with
  | nil => rfl
  | cons text rest ih =>
    have hhead := keeps_getAll (gives_get a text).get?_names rest
    rw [getAll, List.map_cons, List.map_cons]
    exact congrArg₂ List.cons hhead.symm (ih (a.get text).2)

/-- The names that calls of an empty table give, in order. -/
def namesOf (texts : List String) : List String :=
  (empty.getAll texts).1

variable (texts : List String)

theorem length_namesOf : (namesOf texts).length = texts.length := by
  have hlength := congrArg List.length (map_some_getAll empty texts)
  rwa [List.length_map, List.length_map] at hlength

theorem getElem?_namesOf (i : Nat) :
    (namesOf texts)[i]?.map some = texts[i]?.map (Assoc.get? (empty.getAll texts).2.names) := by
  rw [← List.getElem?_map, namesOf, map_some_getAll, List.getElem?_map]

/-- Names are equal exactly if their texts are. -/
theorem getElem?_namesOf_eq_iff (i j : Nat) : (namesOf texts)[i]? = (namesOf texts)[j]? ↔ texts[i]? = texts[j]? := by
  have hi := getElem?_namesOf texts i
  have hj := getElem?_namesOf texts j
  constructor
  · intro h
    rw [h, hj] at hi
    cases htext : texts[i]? with
    | none =>
      rw [htext, Option.map_none, Option.map_eq_none_iff] at hi
      exact hi.symm
    | some text =>
      rw [htext, Option.map_some, Option.map_eq_some_iff] at hi
      obtain ⟨text', htext', hname⟩ := hi
      rw [htext', Option.map_some, Option.map_eq_some_iff] at hj
      obtain ⟨name, -, hname'⟩ := hj
      rw [htext', (sound_getAll sound_empty texts).distinct (hname.symm.trans hname'.symm) hname'.symm]
  · intro h
    rw [h, ← hj] at hi
    exact Option.map_injective (Option.some_injective _) hi

theorem free_of_mem_namesOf {name : String} (h : name ∈ namesOf texts) : name ∈ shortNames ∧ name ∉ reservedWords := by
  have hmem : some name ∈ (empty.getAll texts).1.map some := List.mem_map_of_mem h
  rw [map_some_getAll] at hmem
  obtain ⟨text, -, hname⟩ := List.mem_map.1 hmem
  obtain ⟨k, -, rfl, hfree⟩ := (sound_getAll sound_empty texts).given hname
  exact ⟨short_mem_shortNames k, hfree⟩

end Abbreviations

/-- Places and short names determine each other, in the order of length and then of the alphabet.  Every call ends, and
of any calls on an empty table those with the same text, and no others, give the same name; none gives a reserved one. -/
theorem short_names_distinct :
    Set.BijOn short Set.univ shortNames ∧
    (∀ m n, m < n ↔ List.Shortlex (· < ·) (short m).toList (short n).toList) ∧
    (∀ a text result, Abbreviations.Gives a text result ↔ a.get text = result) ∧
    ∀ texts : List String, (Abbreviations.namesOf texts).length = texts.length ∧
      (∀ i j : Nat, (Abbreviations.namesOf texts)[i]? = (Abbreviations.namesOf texts)[j]? ↔ texts[i]? = texts[j]?) ∧
      ∀ name ∈ Abbreviations.namesOf texts, name ∈ shortNames ∧ name ∉ reservedWords := by
  have hbij : Set.BijOn short Set.univ shortNames := by
    refine ⟨fun n _ => short_mem_shortNames n, short_injective.injOn, fun name hname => ?_⟩
    obtain ⟨n, rfl⟩ := exists_short hname
    exact ⟨n, Set.mem_univ n, rfl⟩
  exact ⟨hbij, fun _ _ => lt_iff_shortlex, fun _ _ _ => Abbreviations.gives_iff, fun texts =>
    ⟨Abbreviations.length_namesOf texts, Abbreviations.getElem?_namesOf_eq_iff texts,
      fun _ => Abbreviations.free_of_mem_namesOf texts⟩⟩

/-- The second of three calls gives a name of its own. -/
theorem short_names_distinct_three :
    "b" ∈ Abbreviations.namesOf ["fragment_F", "fragment_G", "fragment_F"] ∧ "b" ∈ shortNames ∧ "b" ∉ reservedWords := by
  have hgiven : "b" ∈ Abbreviations.namesOf ["fragment_F", "fragment_G", "fragment_F"] := by decide +kernel
  obtain ⟨-, -, -, hcalls⟩ := short_names_distinct
  exact ⟨hgiven, (hcalls _).2.2 "b" hgiven⟩

end ResponseTypes.Naming
