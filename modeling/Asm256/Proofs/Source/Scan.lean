/-
The course of a scan.

A text is cut into items first and counted up then, but the two go together: the
scan of a text reads an item, adds it to the tally of what stands in front of it,
and goes on behind it.
* `Tally.scan_of_read`, `Tally.scan_of_read_error` — one step of a scan;
* `Tally.Scans` — how far a scan gets, and with which tally;
* `Tally.Scans.scan_eq` — the scan of a text goes on from there;
* `Tally.exists_end` — every scan ends, and its last step decides on the result.
-/
import Asm256.Proofs.Source.Pieces
import Asm256.Proofs.Source.Spelling

namespace Asm256

namespace Tally

variable {w : Nat} {t t' : Tally} {c : Char} {cs text rest : List Char} {r : Reading}

/-- The token stream of a text, from the tally of what stands in front of it. -/
def scan (w : Nat) (t : Tally) (text : List Char) : Except ScanError TokenStream :=
  match (Piece.cut text).1.foldlM (add w) t, (Piece.cut text).2 with
  | .error e, _ => .error e
  | .ok t, some r => .error (t.refuse w r)
  | .ok t, none => .ok t.finish

theorem ofText_eq_scan (w : Nat) (text : List Char) : TokenStream.ofText w text = scan w {} text :=
  rfl

theorem scan_nil : scan w t [] = .ok t.finish := by
  simp only [scan, Piece.cut]
  rfl

/-- Where no item can be read, the scan ends. -/
theorem scan_of_read_error {e : Refusal} (h : Item.read c cs = .error e) :
    scan w t (c :: cs) = .error (t.refuse w e) := by
  rw [scan, Piece.cut_of_read_error h]
  rfl

/-- An item that is read is added to the tally, and the scan goes on behind it. -/
theorem scan_of_read (h : Item.read c cs = .ok r) :
    scan w t (c :: cs) = t.add w ⟨r.item, r.text⟩ >>= fun t' => t'.scan w r.rest := by
  have hspelled := Item.spelling_of_read h
  rw [← Item.text_append_rest h, scan, Piece.cut_of_spelling hspelled, List.foldlM_cons]
  cases t.add w ⟨r.item, r.text⟩ <;> rfl

/-- Scanning gets from a text and the tally in front of it to a later part of the text and the tally
in front of that. -/
inductive Scans (w : Nat) : Tally → List Char → Tally → List Char → Prop
  | refl {t : Tally} {text : List Char} : Scans w t text t text
  | step {t t' t'' : Tally} {c : Char} {cs rest : List Char} {r : Reading}
      (hr : Item.read c cs = .ok r) (ha : t.add w ⟨r.item, r.text⟩ = .ok t')
      (h : Scans w t' r.rest t'' rest) : Scans w t (c :: cs) t'' rest

/-- **The scan of a text goes on** from where it gets to. -/
theorem Scans.scan_eq (h : Scans w t text t' rest) : t.scan w text = t'.scan w rest := by
  induction h with
  | refl => rfl
  | step hr ha _ ih =>
    rw [scan_of_read hr, ha]
    exact ih

/-- The tally stands behind the text that has been scanned. -/
theorem Scans.exists_front (h : Scans w t text t' rest) :
    ∃ front, text = front ++ rest ∧ t'.pos = t.pos.after w front := by
  induction h with
  | refl => exact ⟨[], rfl, rfl⟩
  | @step t t₁ t₂ c cs rest r hr ha _ ih =>
    obtain ⟨front, hfront, hpos⟩ := ih
    refine ⟨r.text ++ front, ?_, ?_⟩
    · rw [List.append_assoc, ← hfront, Item.text_append_rest hr]
    · obtain ⟨-, rfl⟩ := add_eq_ok_iff.1 ha
      rw [hpos, Position.after_append]
      rfl

/-- What the last step of a scan comes to: the text is at its end, or the next item cannot be read
or added. -/
inductive Ends (w : Nat) (t : Tally) : List Char → Except ScanError TokenStream → Prop
  | finished : Ends w t [] (.ok t.finish)
  | refused {c : Char} {cs : List Char} {e : Refusal} (h : Item.read c cs = .error e) :
      Ends w t (c :: cs) (.error (t.refuse w e))
  | misfit {c : Char} {cs : List Char} {r : Reading} {e : LexError} (h : Item.read c cs = .ok r)
      (ha : t.addItem ⟨r.item, r.text⟩ = .error e) : Ends w t (c :: cs) (.error (.lexical e t.pos))

/-- **Every scan ends**, and its last step decides on the result. -/
theorem exists_end (w : Nat) (t : Tally) (text : List Char) :
    ∃ t' rest, Scans w t text t' rest ∧ Ends w t' rest (t.scan w text) := by
  induction hlen : text.length using Nat.strongRecOn generalizing t text with
  | ind n ih =>
    cases text with
    | nil =>
      rw [scan_nil]
      exact ⟨t, [], .refl, .finished⟩
    | cons c cs =>
      cases hr : Item.read c cs with
      | error e =>
        rw [scan_of_read_error hr]
        exact ⟨t, c :: cs, .refl, .refused hr⟩
      | ok r =>
        rw [scan_of_read hr]
        cases ha : t.addItem ⟨r.item, r.text⟩ with
        | error e =>
          rw [add, ha]
          exact ⟨t, c :: cs, .refl, .misfit hr ha⟩
        | ok t₁ =>
          have hadd : t.add w ⟨r.item, r.text⟩ = .ok { t₁ with pos := t₁.pos.after w r.text } := by
            rw [add, ha]
          rw [hadd]
          obtain ⟨t', rest, hscans, hends⟩ := ih r.rest.length
            (hlen ▸ Item.rest_length_lt hr) { t₁ with pos := t₁.pos.after w r.text } r.rest rfl
          exact ⟨t', rest, .step hr hadd hscans, hends⟩

theorem Scans.trans {t'' : Tally} {rest' : List Char} (h : Scans w t text t' rest)
    (h' : Scans w t' rest t'' rest') : Scans w t text t'' rest' := by
  induction h with
  | refl => exact h'
  | step hr ha _ ih => exact .step hr ha (ih h')

/-- Tokens stay in the tally. -/
theorem Scans.mem_tokens (h : Scans w t text t' rest) {token : Token} (hm : token ∈ t.tokens) :
    token ∈ t'.tokens := by
  induction h with
  | refl => exact hm
  | step hr ha _ ih =>
    obtain ⟨-, rfl⟩ := add_eq_ok_iff.1 ha
    exact ih (List.mem_append_right _ hm)

/-- The tokens of a tally are tokens of the text, if that is read. -/
theorem mem_tokens_of_scan {s : TokenStream} (h : t.scan w text = .ok s) {token : Token}
    (hm : token ∈ t.tokens) : token ∈ s.tokens := by
  obtain ⟨t', rest, hscans, hends⟩ := exists_end w t text
  rw [h] at hends
  cases hends with
  | finished =>
    have hm' := hscans.mem_tokens hm
    simp [finish, hm']

end Tally

end Asm256
