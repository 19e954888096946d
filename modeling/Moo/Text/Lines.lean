/-!
# Lines of text

`unlines_append`, `toList_unlines_append`: the lines of two texts, one behind
the other.
-/
namespace Moo

/-- Lines as one text, each of them ended. -/
def unlines (lines : List String) : String :=
  String.join (lines.map (· ++ "\n"))

@[simp]
theorem toList_unlines_nil : (unlines []).toList = [] := rfl

@[simp]
theorem toList_unlines_cons (line : String) (lines : List String) :
    (unlines (line :: lines)).toList = line.toList ++ '\n' :: (unlines lines).toList := by
  simp [unlines]

@[simp]
theorem toList_unlines_append (lines more : List String) :
    (unlines (lines ++ more)).toList = (unlines lines).toList ++ (unlines more).toList := by
  simp [unlines]

end Moo
