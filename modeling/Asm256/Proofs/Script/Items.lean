/-
What the items of a text amount to.

Gaps leave no trace: tokens, labels and bytes of code are those of the other
items (`Piece.items`), and so is the question whether the pieces are admissible:
* `Piece.map_tokens`, `Piece.map_labels`, `Piece.size_items` — what the items leave of the pieces;
* `Piece.admissible_iff` — pieces are admissible when their code fits, their labels are new and
  have different names, and each stands where a statement can start (`Item.Placed`).
-/
import Asm256.Proofs.Source.Pieces

namespace Asm256

namespace Item

/-- The name that an item defines. -/
def name? : Item → Option String
  | .definition name => some name
  | _ => none

/-- A statement can start behind the item, or could in front of it if it changes nothing. -/
def boundaryAfter (b : Bool) (i : Item) : Bool :=
  match i.word? with
  | none | some .labelDefinition => b
  | some word => word.isDelimiter

/-- Labels are defined where a statement can start. -/
def Placed : Bool → List Item → Prop
  | _, [] => True
  | b, i :: is => (i.name?.isSome → b = true) ∧ Placed (i.boundaryAfter b) is

/-- The labels of items with their addresses, behind `n` bytes of code. -/
def addressesFrom (n : Nat) : List Item → List (String × Nat)
  | [] => []
  | i :: is => i.name?.toList.map (fun name => (name, n)) ++ addressesFrom (n + i.size) is

end Item

namespace Piece

variable {w : Nat} {pos : Position} {n : Nat} {ps qs : List Piece}

/-- The items of pieces, without the gaps. -/
def items (ps : List Piece) : List Item := (ps.map Piece.item).filter fun i => i.word?.isSome

theorem items_cons_of_gap {p : Piece} (h : p.item = .gap) : items (p :: ps) = items ps := by
  simp [items, h, Item.word?]

theorem items_cons {p : Piece} {word : Word} (h : p.item.word? = some word) :
    items (p :: ps) = p.item :: items ps := by
  simp [items, h]

theorem item_eq_gap {p : Piece} (h : p.item.word? = none) : p.item = .gap := by
  cases hi : p.item <;> simp [hi, Item.word?] at h ⊢

/-- The tokens of pieces say what their items do. -/
theorem map_tokens (w : Nat) (pos : Position) (ps : List Piece) :
    (tokens w pos ps).map (fun t => some t.value) = (items ps).map Item.word? := by
  induction ps generalizing pos with
  | nil => rfl
  | cons p ps ih =>
    rw [tokens, List.map_append, ih, token?]
    cases hw : p.item.word? with
    | none => rw [items_cons_of_gap (item_eq_gap hw), Option.map_none]; rfl
    | some word => rw [items_cons hw, List.map_cons, hw]; rfl

theorem size_items (ps : List Piece) : size ps = ((items ps).map Item.size).sum := by
  induction ps with
  | nil => rfl
  | cons p ps ih =>
    have hsize : size (p :: ps) = p.item.size + size ps := by simp [size]
    rw [hsize, ih]
    cases hw : p.item.word? with
    | none =>
      rw [items_cons_of_gap (item_eq_gap hw), Item.size, hw]
      simp
    | some word => rw [items_cons hw, List.map_cons, List.sum_cons]

/-- The labels of pieces are those of their items. -/
theorem map_labels (w : Nat) (pos : Position) (n : Nat) (ps : List Piece) :
    (labels w pos n ps).map (fun l => (l.name, l.address)) =
      (Item.addressesFrom n (items ps)).map fun e => (e.1, (e.2 : Int)) := by
  induction ps generalizing pos n with
  | nil => rfl
  | cons p ps ih =>
    rw [labels, List.map_append, ih]
    obtain ⟨item, text⟩ := p
    cases item with
    | gap =>
      rw [items_cons_of_gap rfl]
      rfl
    | token word =>
      rw [items_cons (show Item.word? (.token word) = some word from rfl)]
      rfl
    | definition name =>
      rw [items_cons (show Item.word? (.definition name) = some .labelDefinition from rfl)]
      rfl

/-- A piece moves the place of a tally as its item does. -/
theorem atBoundary_extend (t : Tally) (p : Piece) :
    (t.extend w p).atBoundary = p.item.boundaryAfter t.atBoundary := by
  unfold Item.boundaryAfter Tally.atBoundary Tally.extend token?
  cases hw : p.item.word? with
  | none => rfl
  | some word =>
    cases word <;> simp

theorem find?_labels_extend (t : Tally) (p : Piece) (name : String) :
    (t.extend w p).labels.find? name = none ↔
      (∀ m ∈ p.item.name?, m ≠ name) ∧ t.labels.find? name = none := by
  obtain ⟨item, text⟩ := p
  cases item with
  | definition m => simp [Tally.extend, label?, Item.name?, LabelTable.find?]
  | gap | token word => simp [Tally.extend, label?, Item.name?]

/-- The names that items define. -/
def names (ps : List Piece) : List String := (items ps).filterMap Item.name?

theorem names_cons (p : Piece) (ps : List Piece) :
    names (p :: ps) = p.item.name?.toList ++ names ps := by
  obtain ⟨item, text⟩ := p
  cases item with
  | gap => rw [names, items_cons_of_gap rfl]; rfl
  | token word =>
    rw [names, items_cons (show Item.word? (.token word) = some word from rfl)]
    rfl
  | definition name =>
    rw [names, items_cons (show Item.word? (.definition name) = some .labelDefinition from rfl)]
    rfl

theorem placed_items_cons (b : Bool) (p : Piece) (ps : List Piece) :
    Item.Placed b (items (p :: ps)) ↔
      (p.item.name?.isSome → b = true) ∧ Item.Placed (p.item.boundaryAfter b) (items ps) := by
  obtain ⟨item, text⟩ := p
  cases item <;> simp [items, Item.word?, Item.name?, Item.boundaryAfter, Item.Placed]

theorem admits_iff {t : Tally} {p : Piece} (hle : t.byteCount ≤ memorySize) :
    t.Admits p ↔ t.byteCount + p.item.size ≤ memorySize ∧
      ∀ name ∈ p.item.name?, t.labels.find? name = none ∧ t.atBoundary = true := by
  obtain ⟨item, text⟩ := p
  cases item with
  | gap => simpa [Tally.Admits, Item.size, Item.word?, Item.name?] using hle
  | token word => simp [Tally.Admits, Item.size, Item.word?, Item.name?]
  | definition name => simp [Tally.Admits, Item.size, Item.word?, Item.name?, Word.size, hle]

/-- **Pieces are admissible when their code fits, their labels are new and have different names, and
each stands where a statement can start.** -/
theorem admissible_iff {t : Tally} (hle : t.byteCount ≤ memorySize) : Admissible w t ps ↔
    t.byteCount + size ps ≤ memorySize ∧ (names ps).Nodup ∧
      (∀ name ∈ names ps, t.labels.find? name = none) ∧ Item.Placed t.atBoundary (items ps) := by
  induction ps generalizing t with
  | nil => simpa [Admissible, size, names, items, Item.Placed] using hle
  | cons p ps ih =>
    have hsize : size (p :: ps) = p.item.size + size ps := by simp [size]
    rw [Admissible, admits_iff hle, hsize, names_cons, placed_items_cons]
    -- the hypothesis is about the tally with the first piece, which has to fit before
    by_cases hp : t.byteCount + p.item.size ≤ memorySize
    · have hcount : (t.extend w p).byteCount = t.byteCount + p.item.size := rfl
      rw [ih (by rw [hcount]; exact hp), hcount, atBoundary_extend, Nat.add_assoc]
      simp only [find?_labels_extend]
      cases p.item.name? with
      | none => simp [hp]
      | some name =>
        simp only [Option.mem_some_iff, forall_eq', Option.toList_some, List.cons_append,
          List.nil_append, List.nodup_cons, List.forall_mem_cons, Option.isSome_some, forall_const]
        -- a name is new to the tally with `name` when it is new to the tally and not `name`
        constructor
        · rintro ⟨⟨-, hname, hb⟩, hle, hnodup, hnew, hplaced⟩
          refine ⟨hle, ⟨fun hmem => (hnew name hmem).1 rfl, hnodup⟩, ⟨hname, ?_⟩, hb, hplaced⟩
          exact fun m hm => (hnew m hm).2
        · rintro ⟨hle, ⟨hmem, hnodup⟩, ⟨hname, hnew⟩, hb, hplaced⟩
          refine ⟨⟨hp, hname, hb⟩, hle, hnodup, fun m hm => ⟨?_, hnew m hm⟩, hplaced⟩
          rintro rfl
          exact hmem hm
    · constructor
      · rintro ⟨⟨hfit, -⟩, -⟩
        exact absurd hfit hp
      · rintro ⟨hfit, -⟩
        omega

end Piece

end Asm256
