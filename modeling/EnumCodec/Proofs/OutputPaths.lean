import EnumCodec.Proofs.Runs
import EnumCodec.Proofs.Spelling

/-!
# The paths of the files for types

The file for a type is named by the type, in lower case.  Two types of a package have their files at
one path if and only if these names are the same (`Setup.path_eq_iff`): the names of all types start
at the root, or none does, whatever comes before the type.
-/

set_option autoImplicit false

namespace EnumCodec

open Text

/-! ## Slashes in lower case -/

theorem CaseRun.small_of_mem {r : CaseRun} (hr : r ∈ caseRuns) :
    0x60 ≤ (r.first : Int) + r.offset := by
  revert r
  decide +kernel

theorem eq_of_ofNat_eq_slash {n : Nat} (h : Char.ofNat n = '/') : n = '/'.toNat := by
  by_cases valid : n.isValidChar
  · rw [Char.ofNat, dif_pos valid] at h
    exact congrArg Char.toNat h
  · rw [Char.ofNat, dif_neg valid] at h
    exact absurd h (by decide)

theorem toLower_eq_slash_iff {c : Char} (ascii : c.toNat < 0x80) : c.toLower = '/' ↔ c = '/' := by
  have all : ∀ n < 0x80, (Char.ofNat n).toLower = '/' ↔ Char.ofNat n = '/' := by decide
  simpa using all c.toNat ascii

/-- A character has a small form, which starts with a slash only if it is one. -/
theorem exists_smallLetters (c : Char) :
    ∃ d ds, smallLetters c = d :: ds ∧ (d = '/' ↔ c = '/') := by
  unfold smallLetters
  split
  · rename_i ascii
    exact ⟨_, _, rfl, toLower_eq_slash_iff ascii⟩
  rename_i beyond
  have other : c ≠ '/' := by
    rintro rfl
    exact beyond (by decide)
  split
  · exact ⟨_, _, rfl, by simp [other]⟩
  split
  · rename_i r found
    refine ⟨_, _, rfl, ?_⟩
    have far := CaseRun.small_of_mem (List.mem_of_find?_eq_some found)
    have within := List.find?_some found
    simp only [CaseRun.has, Bool.and_eq_true, decide_eq_true_eq] at within
    have first : r.first ≤ c.toNat := within.1.1
    simp only [other, iff_false]
    intro slash
    have code : _ = 47 := eq_of_ofNat_eq_slash slash
    omega
  · exact ⟨_, _, rfl, by simp [other]⟩

theorem head?_lowerCase {s : String} {c : Char} {rest : List Char} (h : s.toList = c :: rest) :
    (lowerCase s).toList.head? = some '/' ↔ c = '/' := by
  rw [lowerCase, String.toList_ofList, h, lowerCaseAfter]
  split
  · rename_i sigma
    obtain rfl : c = '\u03a3' := by simpa using sigma
    split <;> simp
  · obtain ⟨d, ds, eq, slash⟩ := exists_smallLetters c
    simpa [eq] using slash

/-! ## Paths in a directory -/

theorem Path.isAbsolute_iff {path : String} :
    Path.isAbsolute path = true ↔ path.toList.head? = some '/' := by
  unfold isAbsolute
  cases path.toList with
  | nil => simp
  | cons c rest =>
    simp only [List.isPrefixOf, Bool.and_true, beq_iff_eq, List.head?_cons, Option.some.injEq]
    exact eq_comm

/-- The name of the file for a type starts at the root if and only if it is told to. -/
theorem isAbsolute_outputName {typeName : String} (identifier : IsIdentifier typeName)
    (front back : String) :
    Path.isAbsolute (outputName front typeName back) = Path.isAbsolute front := by
  rw [Bool.eq_iff_iff, Path.isAbsolute_iff, Path.isAbsolute_iff, outputName]
  cases chars : front.toList with
  | cons c rest =>
    have text : (front ++ typeName ++ back ++ ".go").toList
        = c :: (rest ++ (typeName ++ back ++ ".go").toList) := by
      simp [chars]
    simp [head?_lowerCase text]
  | nil =>
    cases name : typeName.toList with
    | nil => simpa [name] using identifier.starts
    | cons c rest =>
      have text : (front ++ typeName ++ back ++ ".go").toList
          = c :: (rest ++ (back ++ ".go").toList) := by
        simp [chars, name]
      have start : isNameStart c = true := by simpa [name] using identifier.starts
      have slash : c ≠ '/' := by
        rintro rfl
        revert start
        decide +kernel
      simp [head?_lowerCase text, slash]

theorem Path.join_eq_iff {dir a b : String} (same : isAbsolute a = isAbsolute b) :
    join dir a = join dir b ↔ a = b := by
  have cancel : ∀ front : String, front ++ a = front ++ b ↔ a = b := fun front => by
    simp [← String.toList_inj]
  unfold join
  rw [same]
  split
  · exact Iff.rfl
  split
  · exact cancel dir
  · exact cancel (dir ++ "/")

/-- The files for two types have one path if and only if they have one name in lower case. -/
theorem Setup.path_eq_iff (setup : Setup) {typeName other : String}
    (identifier : IsIdentifier typeName) (identifier' : IsIdentifier other) :
    setup.path typeName = setup.path other ↔
      outputName setup.options.front typeName setup.options.back
        = outputName setup.options.front other setup.options.back :=
  Path.join_eq_iff <| by
    rw [isAbsolute_outputName identifier, isAbsolute_outputName identifier']

end EnumCodec
