import Mathlib
import Moo.Proofs.Reading.Preservation
import Moo.Proofs.Reading.Words

/-!
# A text that is read is a program

Whatever text has a tree is cut into words that the grammar derives, and the
tree is the one of that derivation.

* `Place.Leads.follows`: words that lead from one place to another keep
  `Place.Follows`.
* `parse_sound`: the statement for whole texts.
-/
namespace Moo

theorem Place.Leads.follows {place last : Place} {tokens : List Token}
    (h : place.Leads tokens last) : ∀ {before : List Token}, place.Follows before →
      last.Follows (before ++ tokens) := by
  induction h with
  | stay => intro before hp; simpa using hp
  | word _ hs _ ih => intro before hp; simpa using ih (hp.step (.of_step hs))

/-- A text with a tree is made of gaps and words, each word spelled like its terminal and standing
where it says, and the tree is what a derivation of these words from `start` stands for. -/
theorem parse_sound {source : String} {program : Program} (h : parse source = .ok program) :
    ∃ tokens, Cut .start source.toList tokens ∧ Derives .start tokens program := by
  obtain ⟨tokens, last, hcut, _, hleads, hlast⟩ := parse_ok h
  have hstart : Place.Follows (.between []) [] := .between .noDecls
  exact ⟨tokens, hcut, (hleads.follows hstart).program hlast⟩

/-- A struct whose field has no blank between type and name, with a comment behind it. -/
def gluedField : Program :=
  ⟨[.struct ⟨"S", some ⟨1, 8⟩, none⟩ [.var (.primitive "int") ⟨"x", some ⟨1, 13⟩, none⟩]]⟩

theorem parse_sound_glued :
    parse "struct S\x7bintx;\x7d; // S" = .ok gluedField ∧
      ∃ tokens, Cut .start "struct S\x7bintx;\x7d; // S".toList tokens ∧
        Derives .start tokens gluedField := by
  have h : parse "struct S\x7bintx;\x7d; // S" = .ok gluedField := by cbv
  exact ⟨h, parse_sound h⟩

end Moo
