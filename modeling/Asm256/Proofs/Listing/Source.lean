/-
Listings as source text.

The entries of a listing, each on a line of its own and with a label in front if
it is a target of a branch, are the source of a program (`Listing.source`).  If
all entries can be written, it renders a script with a line for each entry
(`Listing.rendering_source`); else there is an error in it
(`Listing.refused_source`).
-/
import Asm256.Proofs.Listing.Written
import Asm256.Proofs.Script.Grammar
import Asm256.Proofs.Script.Rendering

namespace Asm256

open Item (Loose loose_nil loose_cons)
open Piece (Reads Refused)

namespace Entry

/-- The entry is an instruction, and the bytes of its operands can be written. -/
def Writable (e : Entry) : Prop := e.opcode?.isSome ∧ ∀ o ∈ e.operands, o.1.Names o.2

theorem not_writable_data (n : Nat) (byte : UInt8) : ¬ (data n byte).Writable := by
  simp [Writable, opcode?]

/-- The instruction that an entry is written as. -/
def instruction? : Entry → Option Instruction
  | instruction _ _ m os => some ⟨m, os.map fun o => o.1.operand o.2⟩
  | data _ _ => none

end Entry

namespace Listing

/-- An entry on a line of source text, with its label in front if it is a target. -/
def sourceLine (targets : List Nat) (e : Entry) : String :=
  if e.address ∈ targets then labelName e.address ++ ": " ++ e.text else e.text

/-- A listing as source text. -/
def source (es : List Entry) : String :=
  "\n".intercalate (es.map (sourceLine (targets es)))

/-- The line of a script that an entry is written as. -/
def scriptLine (targets : List Nat) (e : Entry) : Line :=
  ⟨if e.address ∈ targets then [labelName e.address] else [], e.instruction?⟩

/-- The script that a listing is written as. -/
def script (es : List Entry) : Script := es.map (scriptLine (targets es))

end Listing

/-! ### Items with separators -/

theorem intercalate_singletons {α β : Type} (f : α → β) (sep : β) (as : List α) :
    [sep].intercalate (as.map fun a => [f a]) = (as.map f).intersperse sep := by
  induction as with
  | nil => rfl
  | cons a as ih =>
    rcases as with _ | ⟨b, as⟩
    · simp
    · simp only [List.map_cons] at ih
      simp only [List.map_cons, List.intercalate_cons_cons, ih, List.intersperse_cons_cons]
      rfl

/-- Lines with line feeds between them spell a script. -/
theorem Script.spelled_intercalate (p : Script) :
    Script.Spelled p ([.token .newline].intercalate (p.map Line.items)) := by
  induction p with
  | nil => exact .nil
  | cons l p ih =>
    rcases p with _ | ⟨l', p⟩
    · simpa using Script.Spelled.last l
    · rw [List.map_cons, List.map_cons, List.intercalate_cons_cons, List.append_assoc]
      exact .line l rfl ih

/-! ### Entries -/

namespace Entry

variable {e : Entry} {rest : List Char}

theorem toList_text (n : Nat) (op : Opcode) (m : Mnemonic) (o : OperandKind × UInt8)
    (os : List (OperandKind × UInt8)) : (instruction n op m (o :: os)).text.toList =
      (m.name.toList ++ [' ']) ++
        [',', ' '].intercalate ((o :: os).map fun o => (o.1.written o.2).toList) := by
  rw [text, String.toList_append, String.toList_append, String.toList_intercalate, List.map_map]
  · rfl
  · simp

theorem items_text (n : Nat) (op : Opcode) (m : Mnemonic) (o : OperandKind × UInt8)
    (os : List (OperandKind × UInt8)) :
    ((instruction n op m (o :: os)).instruction?.toList.flatMap Instruction.words).map .token =
      [.token (.mnemonic m)] ++ [.token .comma].intercalate
        ((o :: os).map fun o => [Item.token (.operand (o.1.operand o.2))]) := by
  rw [intercalate_singletons]
  simp [instruction?, Instruction.words, Instruction.intersperse_cons, List.flatMap_map,
    List.map_flatMap]

theorem spelling_mnemonic (m : Mnemonic) :
    Item.Spelling (.token (.mnemonic m)) m.name.toList [] := .mnemonic loose_nil.isNameChar

theorem reads_mnemonic (m : Mnemonic) (rest : List Char) :
    Reads [.token (.mnemonic m)] (m.name.toList ++ [' ']) rest :=
  .append (.of_loose (spelling_mnemonic m) (by simp) (loose_cons (by decide))) .space

theorem reads_comma (rest : List Char) : Reads [.token .comma] [',', ' '] rest := by
  have hcomma : Reads [.token .comma] [','] ([' '] ++ rest) := .word .comma (by simp)
  exact hcomma.append .space

theorem reads_operand {o : OperandKind × UInt8} (h : o.1.Names o.2) (rest : List Char)
    (hr : Loose rest) :
    Reads [.token (.operand (o.1.operand o.2))] (o.1.written o.2).toList rest :=
  .of_loose h.spelling (by simp) hr

theorem loose_comma (rest : List Char) : Loose ([',', ' '] ++ rest) := loose_cons (by decide)

/-- **An entry that can be written is read as its instruction.** -/
theorem Writable.reads (h : e.Writable) (hr : Loose rest) :
    Reads ((e.instruction?.toList.flatMap Instruction.words).map .token) e.text.toList rest := by
  obtain ⟨n, op, m, os⟩ | ⟨n, byte⟩ := e
  · cases os with
    | nil => exact .of_loose (spelling_mnemonic m) (by simp) hr
    | cons o os =>
      rw [toList_text, items_text]
      exact (reads_mnemonic m _).append (Reads.intercalate reads_comma loose_comma
        (fun o ho => reads_operand (h.2 o ho)) hr)
  · exact absurd h (not_writable_data n byte)

/-- An entry that cannot be written is an error. -/
theorem refused_text (h : ¬ e.Writable) (hr : Loose rest) : Refused (e.text.toList ++ rest) := by
  obtain ⟨n, op, m, os⟩ | ⟨n, byte⟩ := e
  · have hex : ∃ o ∈ os, ¬ o.1.Names o.2 := by
      by_contra hall
      push Not at hall
      exact h ⟨rfl, hall⟩
    cases os with
    | nil => simp at hex
    | cons o os =>
      rw [toList_text, List.append_assoc]
      refine (reads_mnemonic m _).refused ?_
      exact Piece.refused_intercalate reads_comma loose_comma
        (fun o _ ho => reads_operand ho) (fun o _ ho _ => OperandKind.refused_written ho) hex hr
  · -- no item starts with a full stop
    have htext : (data n byte).text.toList =
        '.' :: ("byte ".toList ++ (Byte.hex byte.toNat).toList) := by
      rw [text, String.toList_append]
      rfl
    rw [htext, List.cons_append]
    exact Piece.refused_of_read rfl

end Entry

/-! ### Lines -/

namespace Listing

variable {es : List Entry} {e : Entry} {ns : List Nat} {rest : List Char}

/-- A label in front of an entry is read as its definition. -/
theorem reads_label (n : Nat) (rest : List Char) :
    Reads [.definition (labelName n)] ((labelName n).toList ++ [':'] ++ [' ']) rest :=
  .append (.word (.definition (Item.labelName_labelName n)) (by simp)) .space

theorem toList_sourceLine (ns : List Nat) (e : Entry) : (sourceLine ns e).toList =
    if e.address ∈ ns then
      (labelName e.address).toList ++ [':'] ++ [' '] ++ e.text.toList else e.text.toList := by
  unfold sourceLine
  split
  · rw [String.toList_append, String.toList_append, List.append_assoc, List.append_assoc,
      List.append_assoc]
    rfl
  · rfl

/-- The line of an entry that can be written is read as that of the script. -/
theorem reads_sourceLine (h : e.Writable) (hr : Loose rest) :
    Reads (scriptLine ns e).items (sourceLine ns e).toList rest := by
  rw [toList_sourceLine, Line.items, scriptLine]
  split
  · exact (reads_label e.address _).append (h.reads hr)
  · exact h.reads hr

/-- The line of an entry that cannot be written is an error. -/
theorem refused_sourceLine (h : ¬ e.Writable) (hr : Loose rest) :
    Refused ((sourceLine ns e).toList ++ rest) := by
  rw [toList_sourceLine]
  split
  · rw [List.append_assoc]
    exact (reads_label e.address _).refused (Entry.refused_text h hr)
  · exact Entry.refused_text h hr

theorem toList_source (es : List Entry) : (source es).toList =
    ['\n'].intercalate (es.map fun e => (sourceLine (targets es) e).toList) := by
  rw [source, String.toList_intercalate, List.map_map]
  rfl

theorem reads_newline (rest : List Char) : Reads [.token .newline] ['\n'] rest :=
  .word .newline (by simp)

theorem loose_newline (rest : List Char) : Loose (['\n'] ++ rest) := loose_cons (by decide)

/-- **A listing that can be written renders its script.** -/
theorem rendering_source (h : ∀ e ∈ es, e.Writable) : (script es).Rendering (source es).toList := by
  have hread := Reads.intercalate reads_newline loose_newline
    (f := fun e => (scriptLine (targets es) e).items)
    (g := fun e => (sourceLine (targets es) e).toList)
    (fun e he _ hr => reads_sourceLine (h e he) hr) loose_nil
  obtain ⟨ps, hps, hitems⟩ := hread.spells
  refine ⟨ps, (toList_source es).symm ▸ hps, ?_⟩
  have hspelled := (script es).spelled_intercalate
  rw [script, List.map_map] at hspelled
  rw [hitems]
  exact hspelled

/-- **There is an error in a listing that cannot be written.** -/
theorem refused_source (h : ∃ e ∈ es, ¬ e.Writable) : Refused (source es).toList := by
  have hrefused := Piece.refused_intercalate reads_newline loose_newline
    (f := fun e => (scriptLine (targets es) e).items)
    (g := fun e => (sourceLine (targets es) e).toList)
    (fun e _ he _ hr => reads_sourceLine he hr) (fun e _ he _ hr => refused_sourceLine he hr)
    h loose_nil
  rw [List.append_nil] at hrefused
  rw [toList_source]
  exact hrefused

end Listing

end Asm256
