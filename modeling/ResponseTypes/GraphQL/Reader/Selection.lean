import ResponseTypes.GraphQL.Reader.Value

/-!
# Reading selections

`selectionsOfTrees` reads what stands between the braces of a selection set.
-/

namespace ResponseTypes.GraphQL

set_option autoImplicit false

/-- The head of a field at the start of a list: label, name and arguments. -/
def readFieldHead : List Tree → Read FieldHead
  | .leaf (.name a) _ :: .leaf (.mark ':') _ :: .leaf (.name n) _ :: .group .paren items _ :: rest =>
    if items.isEmpty then none
    else (fieldsOfTrees false items).map (fun arguments => (⟨some a, n, arguments, []⟩, rest))
  | .leaf (.name a) _ :: .leaf (.mark ':') _ :: .leaf (.name n) _ :: rest => some (⟨some a, n, [], []⟩, rest)
  | .leaf (.name n) _ :: .group .paren items _ :: rest =>
    if items.isEmpty then none
    else (fieldsOfTrees false items).map (fun arguments => (⟨none, n, arguments, []⟩, rest))
  | .leaf (.name n) _ :: rest => some (⟨none, n, [], []⟩, rest)
  | _ => none

/-- What follows the head of a field is smaller than what it was read from. -/
theorem readFieldHead_lt {ts : List Tree} {head : FieldHead} {rest : List Tree}
    (h : readFieldHead ts = some (head, rest)) : sizeOf rest < sizeOf ts := by
  unfold readFieldHead at h
  split at h
  · split at h
    · simp at h
    · obtain ⟨_, -, h⟩ := Option.map_eq_some_iff.1 h
      simp only [Prod.mk.injEq] at h
      obtain ⟨-, rfl⟩ := h
      simp only [List.cons.sizeOf_spec]
      omega
  · simp only [Option.some.injEq, Prod.mk.injEq] at h
    obtain ⟨-, rfl⟩ := h
    simp only [List.cons.sizeOf_spec]
    omega
  · split at h
    · simp at h
    · obtain ⟨_, -, h⟩ := Option.map_eq_some_iff.1 h
      simp only [Prod.mk.injEq] at h
      obtain ⟨-, rfl⟩ := h
      simp only [List.cons.sizeOf_spec]
      omega
  · simp only [Option.some.injEq, Prod.mk.injEq] at h
    obtain ⟨-, rfl⟩ := h
    simp only [List.cons.sizeOf_spec]
    omega
  · simp at h

/-- The start of a selection with three dots: the fragment that is spread, or the type that an inline fragment
applies to. -/
inductive Dotted where
  | spread (fragment : String)
  | inline (condition : Option String)
deriving Repr

/-- Reads what follows the three dots up to the directives. -/
def readDotted : List Tree → Read Dotted
  | .leaf (.name n) _ :: rest =>
    if n = "on" then
      match rest with
      | .leaf (.name t) _ :: rest => some (.inline (some t), rest)
      | _ => none
    else some (.spread n, rest)
  | ts => some (.inline none, ts)

/-- What follows is no larger than what was read from. -/
theorem readDotted_le {ts : List Tree} {d : Dotted} {rest : List Tree}
    (h : readDotted ts = some (d, rest)) : sizeOf rest ≤ sizeOf ts := by
  unfold readDotted at h
  split at h
  · split at h
    · split at h
      · simp only [Option.some.injEq, Prod.mk.injEq] at h
        obtain ⟨-, rfl⟩ := h
        simp only [List.cons.sizeOf_spec]
        omega
      · simp at h
    · simp only [Option.some.injEq, Prod.mk.injEq] at h
      obtain ⟨-, rfl⟩ := h
      simp only [List.cons.sizeOf_spec]
      omega
  · simp only [Option.some.injEq, Prod.mk.injEq] at h
    obtain ⟨-, rfl⟩ := h
    exact Nat.le_refl _

/-- The selections between two braces. -/
def selectionsOfTrees : List Tree → Option (List Selection)
  | [] => some []
  | .leaf .spread _ :: ts =>
    match _hd : readDotted ts with
    | none => none
    | some (dotted, ts') =>
      match _hs : readDirectives false ts' with
      | none => none
      | some (directives, rest) =>
        match dotted with
        | .spread fragment => (selectionsOfTrees rest).map (.spread fragment directives :: ·)
        | .inline condition =>
          match _hr : rest with
          | .group .brace items _ :: rest =>
            if items.isEmpty then none
            else do
              let below ← selectionsOfTrees items
              let more ← selectionsOfTrees rest
              return .inline condition directives below :: more
          | _ => none
  | t :: ts =>
    match _hf : readFieldHead (t :: ts) with
    | none => none
    | some (head, ts') =>
      match _hs : readDirectives false ts' with
      | none => none
      | some (directives, rest) =>
        let head := { head with directives }
        match _hr : rest with
        | .group .brace items _ :: rest =>
          if items.isEmpty then none
          else do
            let below ← selectionsOfTrees items
            let more ← selectionsOfTrees rest
            return .field head below :: more
        | rest => (selectionsOfTrees rest).map (.field head [] :: ·)
termination_by ts => sizeOf ts
decreasing_by
  · have := readDotted_le _hd
    have := readDirectives_le _ _ _hs
    simp only [List.cons.sizeOf_spec]
    omega
  · have := readDotted_le _hd
    have := readDirectives_le _ _ _hs
    simp only [List.cons.sizeOf_spec, Tree.group.sizeOf_spec] at *
    omega
  · have := readDotted_le _hd
    have := readDirectives_le _ _ _hs
    simp only [List.cons.sizeOf_spec, Tree.group.sizeOf_spec] at *
    omega
  · have := readFieldHead_lt _hf
    have := readDirectives_le _ _ _hs
    simp only [List.cons.sizeOf_spec, Tree.group.sizeOf_spec] at *
    omega
  · have := readFieldHead_lt _hf
    have := readDirectives_le _ _ _hs
    simp only [List.cons.sizeOf_spec, Tree.group.sizeOf_spec] at *
    omega
  · have := readFieldHead_lt _hf
    have := readDirectives_le _ _ _hs
    omega

/-- Reads selections in braces. -/
def readSelections : List Tree → Read (List Selection)
  | .group .brace items _ :: rest =>
    if items.isEmpty then none else (selectionsOfTrees items).map (·, rest)
  | _ => none

end ResponseTypes.GraphQL
