/-
Programs with `NOP`s in front.

A text that is assembled is assembled with any number of `NOP`s in front too,
as long as it fits in memory.  The statements are the same behind them, and all
labels move:
* `Script.WellFormed.pad`, `Script.Rendering.pad` — scripts with `NOP`s in front;
* `Script.addresses_pad` — their labels;
* `Assembly.Padded` — the assembly with `NOP`s in front, beside the one without
  (`exists_padded`).
-/
import Asm256.Proofs.Script.Acceptance

namespace Asm256

namespace Script

variable {p : Script} {text : List Char} {k : Nat}

/-- A statement that does nothing. -/
def nop : Instruction := ⟨.nop, []⟩

/-- The line of a statement that does nothing. -/
def nopLine : Line := ⟨[], some nop⟩

/-- `k` statements that do nothing, as they are written. -/
def nops (k : Nat) : List Char := (List.replicate k ['N', 'O', 'P', ';']).flatten

/-- The script with `k` statements that do nothing in front. -/
def pad (k : Nat) (p : Script) : Script := List.replicate k nopLine ++ p

theorem pad_succ (k : Nat) (p : Script) : pad (k + 1) p = nopLine :: pad k p := rfl

theorem nops_succ (k : Nat) : nops (k + 1) = ['N', 'O', 'P', ';'] ++ nops k := by
  rw [nops, nops, List.replicate_succ, List.flatten_cons]

/-- The text with `NOP`s in front renders the script with `NOP`s in front. -/
theorem Rendering.pad (h : p.Rendering text) (k : Nat) :
    (pad k p).Rendering (nops k ++ text) := by
  induction k with
  | zero => exact h
  | succ k ih =>
    obtain ⟨ps, hs, hp⟩ := ih
    have hsemicolon : Piece.Spells (⟨.token .semicolon, [';']⟩ :: ps) (';' :: (nops k ++ text)) :=
      .cons .semicolon hs
    have hnop : Piece.Spells (⟨.token (.mnemonic .nop), ['N', 'O', 'P']⟩ ::
        ⟨.token .semicolon, [';']⟩ :: ps) (['N', 'O', 'P'] ++ ';' :: (nops k ++ text)) :=
      .cons (.mnemonic (m := .nop) (Item.stops_cons (by decide))) hsemicolon
    refine ⟨_, by rw [nops_succ]; exact hnop, ?_⟩
    exact Spelled.line nopLine (d := .semicolon) rfl hp

theorem names_pad (k : Nat) (p : Script) : (pad k p).names = p.names := by
  induction k with
  | zero => rfl
  | succ k ih =>
    rw [pad_succ, names, List.flatMap_cons, ← names, ih]
    rfl

theorem instructions_pad (k : Nat) (p : Script) :
    (pad k p).instructions = List.replicate k nop ++ p.instructions := by
  induction k with
  | zero => rfl
  | succ k ih =>
    rw [pad_succ, List.replicate_succ, List.cons_append, ← ih]
    rfl

theorem size_pad (k : Nat) (p : Script) : (pad k p).size = p.size + k := by
  induction k with
  | zero => rfl
  | succ k ih =>
    have hsize : (pad (k + 1) p).size = 1 + (pad k p).size := rfl
    rw [hsize, ih]
    omega

theorem addressesFrom_pad (n k : Nat) (p : Script) :
    addressesFrom n (pad k p) = addressesFrom (n + k) p := by
  induction k generalizing n with
  | zero => rfl
  | succ k ih =>
    have hline : addressesFrom n (pad (k + 1) p) = addressesFrom (n + 1) (pad k p) := rfl
    rw [hline, ih, Nat.add_assoc, Nat.add_comm 1 k]

theorem addressesFrom_add (n k : Nat) (p : Script) :
    addressesFrom (n + k) p = (addressesFrom n p).map fun e => (e.1, e.2 + k) := by
  induction p generalizing n with
  | nil => rfl
  | cons l p ih =>
    rw [addressesFrom, addressesFrom, List.map_append, List.map_map, ← ih, Nat.add_right_comm]
    rfl

/-- All labels move by the `NOP`s in front. -/
theorem addresses_pad (k : Nat) (p : Script) :
    (pad k p).addresses = p.addresses.map fun e => (e.1, e.2 + k) := by
  rw [addresses, addresses, addressesFrom_pad, addressesFrom_add]

/-- **A well-formed script is well-formed with `NOP`s in front**, if these fit. -/
theorem WellFormed.pad (h : p.WellFormed) (hk : p.size + k ≤ memorySize) :
    (pad k p).WellFormed := by
  have hmem : ∀ i ∈ (Script.pad k p).instructions, i = nop ∨ i ∈ p.instructions := by
    intro i hi
    rw [instructions_pad, List.mem_append] at hi
    exact hi.imp_left List.eq_of_mem_replicate
  refine ⟨?_, ?_, fun i hi => ?_, fun i hi o ho => ?_, fun i hi name ho => ?_, ?_⟩
  · rw [names_pad]
    exact h.nodup
  · rw [names_pad]
    exact h.labelName
  · rcases hmem i hi with rfl | hi
    · exact ⟨.nop, by decide⟩
    · exact h.signature i hi
  · rcases hmem i hi with rfl | hi
    · cases ho
    · exact h.writable i hi o ho
  · rw [names_pad]
    rcases hmem i hi with rfl | hi
    · cases ho
    · exact h.defined i hi name ho
  · rw [size_pad]
    exact hk

end Script

/-! ### The assembly with NOPs in front -/

/-- `a'` is the assembly of the text of `a` with `k` `NOP`s in front: it has the same statements
behind them, and all labels have moved. -/
structure Assembly.Padded (k : Nat) (a a' : Assembly) : Prop where
  statements : ∃ front back, a'.statements = front ++ back ∧
    front.map Statement.instruction = List.replicate k Script.nop ∧
    back.map Statement.instruction = a.statements.map Statement.instruction
  address : ∀ name, (a'.labels.find? name).map Label.address =
    (a.labels.find? name).map fun l => l.address + (k : Int)
  codeSize : a'.image.codeSize = a.image.codeSize + k

/-- **A text that is assembled is assembled with `NOP`s in front**, if these fit. -/
theorem exists_padded {w k : Nat} {text : List Char} {a : Assembly}
    (h : assemble .standard w text = .ok a) (hk : a.image.codeSize + k ≤ memorySize) :
    ∃ a', assemble .standard w (Script.nops k ++ text) = .ok a' ∧ a.Padded k a' := by
  obtain ⟨p, hw, hr, hlayout⟩ := exists_script_of_assemble h
  rw [hlayout.codeSize] at hk
  obtain ⟨a', ha', hlayout'⟩ := (hw.pad hk).assemble (hr.pad k) w
  refine ⟨a', ha', ?_, fun name => ?_, ?_⟩
  · have hstatements := hlayout'.statements
    rw [Script.instructions_pad, ← hlayout.statements] at hstatements
    obtain ⟨front, back, heq, hfront, hback⟩ := List.map_eq_append_iff.1 hstatements
    exact ⟨front, back, heq, hfront, hback⟩
  · have hfind := LabelTable.map_find? name hlayout.labels
    have hfind' := LabelTable.map_find? name hlayout'.labels
    have hmove : (a.labels.find? name).map (fun l => l.address + (k : Int)) =
        ((a.labels.find? name).map Label.address).map (· + (k : Int)) := by
      rw [Option.map_map]
      rfl
    rw [Script.addresses_pad, lookup_map_snd (· + k)] at hfind'
    rw [hfind', hmove, hfind]
    cases p.addresses.lookup name <;> rfl
  · rw [hlayout'.codeSize, hlayout.codeSize, Script.size_pad]

end Asm256
