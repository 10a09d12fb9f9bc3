import ResponseTypes.Text.Replace

/-!
# Dependency keys

A dependency is a kind and a name, written `kind:name`.  `Dependency.ofKey` reads a key back: the kind ends at the first
colon, so kinds hold none (`ofKey_key`).  A `Derived` thing remembers the file it came from and the keys it depends on.
-/

namespace ResponseTypes

set_option autoImplicit false

/-- The file of a document that came without one. -/
def noFile : String := "no-file-path"

structure Dependency where
  kind : String
  name : String
deriving DecidableEq, Repr

namespace Dependency

/-- The written form. -/
def key (d : Dependency) : String :=
  d.kind ++ ":" ++ d.name

/-- Reads a key: all of it is the kind if it holds no colon. -/
def ofKey (key : String) : Dependency :=
  let kind := key.toList.takeWhile (· != ':')
  ⟨String.ofList kind, String.ofList (key.toList.drop (kind.length + 1))⟩

/-- A key reads back as the dependency it was written for, if the kind holds no colon. -/
theorem ofKey_key {kind : String} (hk : ':' ∉ kind.toList) (name : String) : ofKey (key ⟨kind, name⟩) = ⟨kind, name⟩ := by
  have hkey : (kind ++ ":" ++ name).toList = kind.toList ++ ':' :: name.toList := by simp
  have hkind : (kind.toList ++ ':' :: name.toList).takeWhile (· != ':') = kind.toList := by
    rw [List.takeWhile_append_of_pos, List.takeWhile_cons]
    · simp
    · intro x hx
      simp only [bne_iff_ne, ne_eq]
      rintro rfl
      exact hk hx
  simp only [ofKey, key, hkey]
  rw [hkind, List.drop_append, List.drop_eq_nil_of_le (Nat.le_succ _)]
  simp

/-- The kind of a dependency on a file. -/
def fileKind : String := "file"

/-- The kind of a dependency on a fragment that is spread. -/
def fragmentUseKind : String := "fragment-use"

/-- The key of a file. -/
def fileKey (file : String) : String :=
  key ⟨fileKind, file⟩

/-- The key of a fragment use. -/
def fragmentUseKey (fragment : String) : String :=
  key ⟨fragmentUseKind, fragment⟩

/-- The key is a fragment use. -/
def isFragmentUse (key : String) : Bool :=
  (ofKey key).kind == fragmentUseKind

/-- The names of the fragments that the keys use, in order. -/
def fragmentsUsed (keys : List String) : List String :=
  (keys.filter isFragmentUse).map (fun k => (ofKey k).name)

end Dependency

/-- What is known of the origin of a derived value. -/
structure Origin where
  /-- the file that was current when the derivation began -/
  file : String
  /-- the keys of all that it was derived from, in order of first recording -/
  keys : List String
deriving DecidableEq, Repr

/-- The value came from the file or depends on it. -/
def Origin.dependsOn (o : Origin) (file : String) : Bool :=
  o.file == file || o.keys.contains (Dependency.fileKey file)

end ResponseTypes
