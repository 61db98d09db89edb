/-
The two passes over a text.

The first pass counts the bytes of the tokens, and the second writes the
statements that the tokens form.  It writes as many bytes as were counted, for
any instruction table, so none of the failures that are the assembler's own can
come about:
* `Image.Writes` — a number is written in the course of encoding statements;
* `Image.Writes.cursor_lt` — there is room for it when the statements fit in memory;
* `passes_agree` — the bytes counted, those of the statements and those written are as many, and
  assembly never fails by itself.
-/
import Asm256.Instruction.Table
import Asm256.Proofs.Outcome

namespace Asm256

open Statement (totalSize)

variable {tree : SignatureTree} {labels : LabelTable} {ss : List Statement} {writer : Writer}
  {value : Int}

/-- In the course of encoding the statements, `value` is to be written by `writer`: it has written
the statements in front, and of the one that the number belongs to, the numbers in front. -/
def Image.Writes (tree : SignatureTree) (labels : LabelTable) (ss : List Statement)
    (writer : Writer) (value : Int) : Prop :=
  ∃ front s back before after w₀, ss = front ++ s :: back ∧
    front.foldlM (Writer.writeStatement tree labels) .empty = .ok w₀ ∧
    s.encode tree labels = .ok (before ++ value :: after) ∧ w₀.writeAll before = some writer

/-- What statements have been written, when they have. -/
theorem Writer.wrote_of_writeStatements {w : Writer}
    (h : ss.foldlM (writeStatement tree labels) .empty = .ok w) :
    ∃ bs, w.Wrote bs ∧ bs.length = totalSize ss := by
  obtain ⟨he, hle⟩ := wrote_empty.of_writeStatements (by simp) h
  obtain ⟨w', hw, hwrote⟩ := wrote_empty.writeStatements he hle
  cases h.symm.trans hw
  exact ⟨_, hwrote, Statement.length_codeOf he⟩

/-- **No number is written past the end of the memory** when the statements fit there. -/
theorem Image.Writes.cursor_lt (h : Image.Writes tree labels ss writer value)
    (hle : totalSize ss ≤ memorySize) : writer.cursor < memorySize := by
  obtain ⟨front, s, back, before, after, w₀, rfl, hfront, hencode, hbefore⟩ := h
  obtain ⟨bs, hwrote, hbs⟩ := Writer.wrote_of_writeStatements hfront
  have hlen := Statement.length_of_encode hencode
  rw [List.length_append, List.length_cons] at hlen
  rw [Statement.totalSize_append, Statement.totalSize_cons] at hle
  have hroom : bs.length + before.length ≤ memorySize := by omega
  obtain ⟨w, hw, hwritten⟩ := hwrote.writeAll hroom
  cases hbefore.symm.trans hw
  rw [hwritten.cursor_eq, List.length_append, List.length_map]
  omega

/-- **The two passes agree**, for every text, every tab width and every instruction table: assembly
has no failure of its own.  The statements of a text take the bytes that were counted, which are 256
at most; they have an image with just these bytes of code, or one of them has no signature or names
a label that is not defined; and no number is to be written past the end of the memory, also when a
statement behind it has no encoding. -/
theorem passes_agree (tree : SignatureTree) (w : Nat) (text : List Char) :
    (∀ e, assemble tree w text ≠ .error (.internal e)) ∧
    ∀ stream ss, TokenStream.ofText w text = .ok stream →
      Statement.parse stream.tokens = .ok ss →
      (ss.map Statement.size).sum = stream.byteCount ∧ stream.byteCount ≤ memorySize ∧
      ((∃ i, Image.encode tree stream.labels ss = .ok i ∧ i.codeSize = stream.byteCount) ∨
        (∃ pos m received valid, Image.encode tree stream.labels ss =
          .error (.statement (.invalidSignature pos m received valid))) ∨
        ∃ token, Image.encode tree stream.labels ss =
          .error (.statement (.undefinedLabel token))) ∧
      ∀ writer value, Image.Writes tree stream.labels ss writer value →
        writer.cursor < memorySize := by
  constructor
  · intro e h
    rcases exists_error_of_assemble h with ⟨s, hs⟩ | ⟨t, -, ht⟩
    · cases hs
    · cases ht
  · intro stream ss hscan hparse
    obtain ⟨hsize, hle⟩ := TokenStream.totalSize_of_parse hscan hparse
    have hfits : totalSize ss ≤ memorySize := hsize ▸ hle
    refine ⟨hsize, hle, ?_, fun writer value hw => hw.cursor_lt hfits⟩
    rcases Image.encode_of_fits tree stream.labels hfits with ⟨i, hi, hcodeSize⟩ | ⟨e, he⟩
    · exact .inl ⟨i, hi, hcodeSize.trans hsize⟩
    · cases e with
      | invalidSignature pos m received valid => exact .inr (.inl ⟨pos, m, received, valid, he⟩)
      | undefinedLabel token => exact .inr (.inr ⟨token, he⟩)

/-- A branch to the end of the code: two bytes are counted, and the second is written last. -/
theorem passes_agree_branch : ∃ stream ss, TokenStream.ofText 4 "B e;e:".toList = .ok stream ∧
    Statement.parse stream.tokens = .ok ss ∧ stream.byteCount = 2 ∧
    (ss.map Statement.size).sum = 2 ∧
    ∃ writer, Image.Writes .standard stream.labels ss writer 2 ∧ writer.cursor < memorySize := by
  obtain ⟨stream, hscan, hstream⟩ := exists_ok_of_any (x := TokenStream.ofText 4 "B e;e:".toList)
    (p := fun stream : TokenStream => decide (stream.byteCount = 2) &&
      (Statement.parse stream.tokens).toOption.any fun ss : List Statement =>
        decide (ss.length = 1) && ss.all fun s =>
          decide ((s.encode .standard stream.labels).toOption = some [0x0b, 2]))
    (by decide +kernel)
  obtain ⟨hcount, hstream⟩ := Bool.and_eq_true_iff.1 hstream
  obtain ⟨ss, hparse, hss⟩ := exists_ok_of_any hstream
  obtain ⟨hlen, hall⟩ := Bool.and_eq_true_iff.1 hss
  obtain ⟨s, rfl⟩ := List.length_eq_one_iff.1 (of_decide_eq_true hlen)
  have hencode : s.encode .standard stream.labels = .ok ([0x0b] ++ 2 :: []) := by
    have hs := of_decide_eq_true (List.all_eq_true.1 hall s (List.mem_singleton_self s))
    cases hv : s.encode .standard stream.labels with
    | error e =>
      rw [hv] at hs
      cases hs
    | ok values =>
      rw [hv] at hs
      cases hs
      rfl
  have hwrites : ∃ writer, Image.Writes .standard stream.labels [s] writer 2 :=
    ⟨_, [], s, [], [0x0b], [], .empty, rfl, rfl, hencode, rfl⟩
  obtain ⟨writer, hwrites⟩ := hwrites
  obtain ⟨-, hagree⟩ := passes_agree .standard 4 "B e;e:".toList
  obtain ⟨hsum, -, -, hcursor⟩ := hagree stream [s] hscan hparse
  have hcount := of_decide_eq_true hcount
  exact ⟨stream, [s], hscan, hparse, hcount, hsum.trans hcount, writer, hwrites,
    hcursor writer 2 hwrites⟩

end Asm256
