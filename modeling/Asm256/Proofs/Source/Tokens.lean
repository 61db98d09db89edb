/-
The tokens and labels of a text that is spelled by pieces.

* `Piece.exists_of_mem_labels` — a label stands at a token that defines it, and its address counts
  the bytes of code in front of that token;
* `Piece.Spells.pairwise_tokens` — the tokens stand one after the other;
* `Piece.Spells.writable` — operands are such as can be written, and the end of the input is no
  word of the text.
-/
import Asm256.Proofs.Source.Grammar
import Asm256.Proofs.Source.Spelling

namespace Asm256

/-- An operand that can be written: its number fits, or its name may be that of a label. -/
def Operand.Writable : Operand → Prop
  | .register n => 0 ≤ n ∧ n < registerCount
  | .memory n | .literal n => 0 ≤ n ∧ n < 256
  | .label name => Item.LabelName name

namespace Item

variable {i : Item} {text rest : List Char}

/-- A word of a text is not the end of the input, and an operand is writable. -/
theorem Spelling.word {word : Word} (h : Spelling i text rest) (hw : i.word? = some word) :
    word ≠ .endOfInput ∧ ∀ o, word = .operand o → o.Writable := by
  cases h with
  | memory hn _ | literal hn _ =>
    cases hw
    refine ⟨by simp, fun o ho => ?_⟩
    cases ho
    have := hn.lt
    exact ⟨by omega, by omega⟩
  | register hn hlt _ =>
    cases hw
    refine ⟨by simp, fun o ho => ?_⟩
    cases ho
    exact ⟨by omega, by omega⟩
  | label hn _ _ =>
    cases hw
    refine ⟨by simp, fun o ho => ?_⟩
    cases ho
    exact hn
  | _ =>
    cases hw <;> simp

/-- A word does not start with a tab. -/
theorem Spelling.first {word : Word} (h : Spelling i text rest) (hw : i.word? = some word) :
    ∃ c cs, text = c :: cs ∧ c ≠ '\t' := by
  have hname : ∀ name : List Char, name ≠ [] → (∀ c ∈ name, isNameChar c) →
      ∃ c cs, name = c :: cs ∧ c ≠ '\t' := by
    intro name hne hn
    obtain ⟨c, cs, rfl⟩ := List.exists_cons_of_ne_nil hne
    refine ⟨c, cs, rfl, ?_⟩
    rintro rfl
    exact absurd (hn '\t' (by simp)) (by decide)
  cases h with
  | newline | semicolon | comma => exact ⟨_, _, rfl, by decide⟩
  | blank _ _ | lineComment _ _ | blockComment _ => cases hw
  | memory hn _ =>
    obtain ⟨c, cs, rfl⟩ := List.exists_cons_of_ne_nil hn.ne_nil
    refine ⟨c, cs, rfl, ?_⟩
    rintro rfl
    exact absurd (hn.isDigit '\t' (by simp)) (by decide)
  | literal _ _ | register _ _ _ => exact ⟨_, _, rfl, by decide⟩
  | mnemonic _ => exact hname _ (mnemonic_ne_nil _) (mnemonic_isNameChar _)
  | label hn _ _ => exact hname _ hn.ne_nil hn.isNameChar
  | definition hn =>
    obtain ⟨c, cs, heq, hc⟩ := hname _ hn.ne_nil hn.isNameChar
    exact ⟨c, cs ++ [':'], by rw [heq]; rfl, hc⟩

end Item

namespace Piece

variable {w : Nat} {pos : Position} {address : Nat} {ps : List Piece} {text : List Char}

theorem mem_token? {p : Piece} {t : Token} (h : t ∈ p.token? pos) :
    ∃ word, p.item.word? = some word ∧ t = ⟨word, String.ofList p.text, pos⟩ := by
  obtain ⟨word, hw, rfl⟩ := Option.map_eq_some_iff.1 h
  exact ⟨word, hw, rfl⟩

/-- A label stands where it is defined, for the bytes of code in front of its definition. -/
theorem exists_of_mem_labels {l : Label} (h : l ∈ labels w pos address ps) :
    ∃ front d back, tokens w pos ps = front ++ d :: back ∧ d.value = .labelDefinition ∧
      d.pos = l.pos ∧ l.address = (address + Token.totalSize front : Nat) := by
  induction ps generalizing pos address with
  | nil => simp [labels] at h
  | cons p ps ih =>
    rw [labels, List.mem_append] at h
    rcases h with h | h
    · -- the label is that of the first piece
      obtain ⟨item, text⟩ := p
      cases item with
      | definition name =>
        obtain rfl : l = ⟨name, address, pos⟩ := by simpa [label?] using h
        exact ⟨[], _, tokens w (pos.after w text) ps, rfl, rfl, rfl, by simp⟩
      | gap | token word => simp [label?] at h
    · obtain ⟨front, d, back, heq, hd, hpos, ha⟩ := ih h
      refine ⟨(p.token? pos).toList ++ front, d, back, ?_, hd, hpos, ?_⟩
      · rw [tokens, heq, List.append_assoc]
      · rw [ha, Token.totalSize_append, totalSize_token?, Nat.add_assoc]

/-- No token stands before the place that the pieces start at. -/
theorem not_before_of_mem_tokens {t : Token} (h : t ∈ tokens w pos ps) : ¬ t.pos.Before pos := by
  induction ps generalizing pos with
  | nil => simp [tokens] at h
  | cons p ps ih =>
    rw [tokens, List.mem_append, Option.mem_toList] at h
    rcases h with h | h
    · obtain ⟨word, -, rfl⟩ := mem_token? h
      exact fun hb => hb.asymm hb
    · intro hb
      exact ih h (Position.before_of_not_before hb (Position.not_before_after w pos p.text))

/-- The tokens of a text stand one after the other. -/
theorem Spells.pairwise_tokens (h : Spells ps text) :
    (tokens w pos ps).Pairwise fun t u => t.pos.Before u.pos := by
  induction h generalizing pos with
  | nil => exact .nil
  | @cons p ps rest hp _ ih =>
    rw [tokens]
    cases ht : p.token? pos with
    | none => exact ih
    | some t =>
      obtain ⟨word, hw, rfl⟩ := mem_token? ht
      obtain ⟨c, cs, htext, hc⟩ := hp.first hw
      refine .cons (fun u hu => ?_) ih
      have hb := @Position.before_after w pos c cs hc
      rw [← htext] at hb
      exact Position.before_of_not_before hb (not_before_of_mem_tokens hu)

/-- The words of a text are writable, and the end of the input is none of them. -/
theorem Spells.writable (h : Spells ps text) :
    ∀ t ∈ tokens w pos ps, t.value ≠ .endOfInput ∧ ∀ o, t.value = .operand o → o.Writable := by
  induction h generalizing pos with
  | nil => simp [tokens]
  | @cons p ps rest hp _ ih =>
    intro t ht
    rw [tokens, List.mem_append, Option.mem_toList] at ht
    rcases ht with ht | ht
    · obtain ⟨word, hw, rfl⟩ := mem_token? ht
      exact hp.word hw
    · exact ih t ht

end Piece

end Asm256
