import ResponseTypes.Text.Quoted
import Mathlib.Data.String.Basic

/-!
# Reading quoted text

A quoted text tells where it ends and what it quotes: `readChar` reads what `quoteChar` writes (`readChar_quoteChar`), so that
no two texts are quoted the same, whatever follows them (`quoted_append_inj`).
-/

namespace ResponseTypes.Text

set_option autoImplicit false

/-- The value of a hexadecimal digit. -/
def digitValue (c : Char) : Nat :=
  if c.toNat < 58 then c.toNat - 48 else c.toNat - 87

/-- The number that hexadecimal digits are written for. -/
def hexValue (cs : List Char) : Nat :=
  cs.foldl (fun n c => 16 * n + digitValue c) 0

/-- A character that is written by so many digits of its code point, and what follows. -/
def readCode (count : Nat) (cs : List Char) : Char × List Char :=
  (Char.ofNat (hexValue (cs.take count)), cs.drop count)

/-- The first character that is written between quotes, and what follows. -/
def readChar : List Char → Char × List Char
  | '\\' :: 'n' :: rest => ('\n', rest)
  | '\\' :: 'r' :: rest => ('\r', rest)
  | '\\' :: 't' :: rest => ('\t', rest)
  | '\\' :: 'x' :: rest => readCode 2 rest
  | '\\' :: 'u' :: rest => readCode 4 rest
  | '\\' :: 'U' :: rest => readCode 8 rest
  | '\\' :: c :: rest => (c, rest)
  | c :: rest => (c, rest)
  | [] => (default, [])

theorem length_hexDigits (n count : Nat) : (hexDigits n count).length = count := by
  induction count generalizing n with
  | zero => rfl
  | succ count ih => simp [hexDigits, ih]

theorem hexValue_hexDigits (n count : Nat) : hexValue (hexDigits n count) = n % 16 ^ count := by
  have hdigit : ∀ d : Fin 16, digitValue (Nat.digitChar d) = d := by decide
  induction count generalizing n with
  | zero => simp [hexDigits, hexValue, Nat.mod_one]
  | succ count ih =>
    have hlast := hdigit ⟨n % 16, Nat.mod_lt n (by decide)⟩
    have happend : hexValue (hexDigits n (count + 1)) = 16 * hexValue (hexDigits (n / 16) count) + n % 16 := by
      simp [hexDigits, hexValue, List.foldl_append, hlast]
    rw [happend, ih, Nat.pow_succ', Nat.mod_mul, Nat.add_comm]

theorem readCode_hexDigits {c : Char} {count : Nat} (h : c.toNat < 16 ^ count) (rest : List Char) :
    readCode count (hexDigits c.toNat count ++ rest) = (c, rest) := by
  have hlength := length_hexDigits c.toNat count
  rw [readCode, List.take_left' hlength, List.drop_left' hlength, hexValue_hexDigits, Nat.mod_eq_of_lt h, Char.ofNat_toNat]

theorem readChar_plain {c : Char} (h : c ≠ '\\') (rest : List Char) : readChar (c :: rest) = (c, rest) := by
  unfold readChar
  split <;> simp_all

theorem toNat_lt (c : Char) : c.toNat < 16 ^ 8 := by
  rcases c.valid with h | ⟨-, h⟩
  · exact Nat.lt_trans h (by decide)
  · exact Nat.lt_trans h (by decide)

variable {mark : Char} (hmark : mark = '\'' ∨ mark = '"')

include hmark

/-- What is written for a character is read as that character. -/
theorem readChar_quoteChar (c : Char) (rest : List Char) : readChar (quoteChar mark c ++ rest) = (c, rest) := by
  unfold quoteChar
  split_ifs with hquote hn hr ht hunprinted
  · have hc : c = '\'' ∨ c = '"' ∨ c = '\\' := by
      rw [Bool.or_eq_true, decide_eq_true_eq, decide_eq_true_eq] at hquote
      rcases hmark with rfl | rfl <;> tauto
    rcases hc with rfl | rfl | rfl <;> rfl
  · rw [hn]
    rfl
  · rw [hr]
    rfl
  · rw [ht]
    rfl
  · unfold escapeCode
    split_ifs with hbyte hshort
    · exact readCode_hexDigits hbyte rest
    · exact readCode_hexDigits hshort rest
    · exact readCode_hexDigits (toNat_lt c) rest
  · exact readChar_plain (by simp_all) rest

/-- What is written for a character does not begin like the end of a quoted text. -/
theorem quoteChar_append_ne (c : Char) (rest rest' : List Char) : quoteChar mark c ++ rest ≠ mark :: rest' := by
  intro h
  have hne : mark ≠ '\\' := by rcases hmark with rfl | rfl <;> decide
  have hread := readChar_quoteChar hmark c rest
  rw [h, readChar_plain hne] at hread
  obtain ⟨rfl, -⟩ := Prod.mk.inj hread
  rw [quoteChar, if_pos (by simp)] at h
  exact hne (List.cons.inj h).1.symm

/-- Two texts between quotes that are continued to the same text are the same, and so is what follows. -/
theorem quoteChars_append_inj {cs ds x y : List Char}
    (h : cs.flatMap (quoteChar mark) ++ mark :: x = ds.flatMap (quoteChar mark) ++ mark :: y) : cs = ds ∧ x = y := by
  induction cs generalizing ds with
  | nil =>
    cases ds with
    | nil => exact ⟨rfl, List.tail_eq_of_cons_eq h⟩
    | cons d ds =>
      rw [List.flatMap_cons, List.append_assoc] at h
      exact absurd h.symm (quoteChar_append_ne hmark d _ x)
  | cons c cs ih =>
    rw [List.flatMap_cons, List.append_assoc] at h
    cases ds with
    | nil => exact absurd h (quoteChar_append_ne hmark c _ y)
    | cons d ds =>
      rw [List.flatMap_cons, List.append_assoc] at h
      have hread := congrArg readChar h
      rw [readChar_quoteChar hmark, readChar_quoteChar hmark] at hread
      obtain ⟨rfl, hrest⟩ := Prod.mk.inj hread
      obtain ⟨rfl, hxy⟩ := ih hrest
      exact ⟨rfl, hxy⟩

omit hmark

theorem quoteMark_cases (cs : List Char) : quoteMark cs = '\'' ∨ quoteMark cs = '"' := by
  unfold quoteMark
  split
  · exact Or.inr rfl
  · exact Or.inl rfl

theorem toList_quoted (s : String) : (quoted s).toList =
    quoteMark s.toList :: (s.toList.flatMap (quoteChar (quoteMark s.toList)) ++ [quoteMark s.toList]) := by
  simp [quoted]

/-- No two texts are quoted the same, whatever follows them. -/
theorem quoted_append_inj {s t : String} {x y : List Char} (h : (quoted s).toList ++ x = (quoted t).toList ++ y) :
    s = t ∧ x = y := by
  rw [toList_quoted, toList_quoted, List.cons_append, List.cons_append, List.append_assoc, List.append_assoc] at h
  obtain ⟨hmark, hrest⟩ := List.cons.inj h
  rw [← hmark] at hrest
  obtain ⟨hlist, hxy⟩ := quoteChars_append_inj (quoteMark_cases s.toList) hrest
  exact ⟨String.toList_inj.1 hlist, hxy⟩

end ResponseTypes.Text
