/-
Texts of scripts that cannot be assembled.

The script that a text renders decides whether it is assembled, even if other
scripts are rendered by it as well: they have the same instructions
(`Script.Spelled.map_instruction`).  So a text is assembled exactly if its script
is well-formed, and otherwise there is an error of the program
(`Script.Rendering.wellFormed`, `Script.Rendering.source_error`).
-/
import Asm256.Proofs.Outcome
import Asm256.Proofs.Script.Acceptance

namespace Asm256.Script

variable {w : Nat} {text : List Char} {ps : List Piece} {p : Script} {a : Assembly}

/-- The statements of an assembled text have the instructions of its script. -/
theorem Spelled.map_instruction (hp : Spelled p (Piece.items ps))
    (h : Assembled .standard w ps a) :
    a.statements.map Statement.instruction = p.instructions := by
  obtain ⟨ss, hss, hinst⟩ := hp.exists_sequence w
  have hparse : Except.ok ss = Except.ok a.statements :=
    hss.parse_eq.symm.trans h.parsed.parse_eq
  rw [← hinst, Except.ok.inj hparse]

/-- The script of a text that is assembled is well-formed. -/
theorem Rendering.wellFormed (hr : p.Rendering text)
    (h : assemble .standard w text = .ok a) : p.WellFormed := by
  obtain ⟨ps, hs, hp⟩ := hr
  obtain ⟨qs, hqs, h⟩ := assemble_eq_ok_iff.1 h
  obtain rfl : qs = ps := congrArg Prod.fst (hqs.cut.symm.trans hs.cut)
  exact wellFormed_of_assembled hs hp h (hp.map_instruction h)

/-- A text has an error of the program if its script is not well-formed. -/
theorem Rendering.source_error (hr : p.Rendering text) (hw : ¬ p.WellFormed) (w : Nat) :
    ∃ e, assemble .standard w text = .error (.source e) := by
  have ⟨ps, hs, _⟩ := hr
  rcases hs.assemble .standard w with ⟨a, ha⟩ | he
  · exact absurd (hr.wellFormed ha) hw
  · exact he

end Asm256.Script
