/-
The items of a script are where a program can have them.

What a script says of its lines holds of the items that spell it:
* `Script.Spelled.names`, `Script.Spelled.size`, `Script.Spelled.addressesFrom` — they define the
  labels of the script, take as many bytes, and put each label at its address;
* `Script.Spelled.placed` — labels are defined where a statement can start.
-/
import Asm256.Proofs.Script.Grammar

namespace Asm256

namespace Item

variable {b : Bool} {n : Nat} {is : List Item}

theorem filterMap_name?_definitions (labels : List String) :
    (labels.map definition).filterMap name? = labels := by
  simp [List.filterMap_map, Function.comp_def, name?]

theorem filterMap_name?_tokens (words : List Word) :
    (words.map token).filterMap name? = [] := by
  simp [List.filterMap_map, Function.comp_def, name?]

theorem size_definitions (labels : List String) :
    ((labels.map definition).map Item.size).sum = 0 := by
  induction labels with
  | nil => rfl
  | cons name labels ih =>
    rw [List.map_cons, List.map_cons, List.sum_cons, ih]
    rfl

theorem size_tokens (words : List Word) :
    ((words.map token).map Item.size).sum = (words.map Word.size).sum := by
  rw [List.map_map]
  rfl

theorem addressesFrom_definitions (n : Nat) (labels : List String) (is : List Item) :
    addressesFrom n (labels.map definition ++ is) =
      labels.map (fun name => (name, n)) ++ addressesFrom n is := by
  induction labels with
  | nil => rfl
  | cons name labels ih =>
    have hsize : n + (definition name).size = n := rfl
    rw [List.map_cons, List.cons_append, addressesFrom, hsize, ih]
    rfl

theorem addressesFrom_tokens (n : Nat) (words : List Word) (is : List Item) :
    addressesFrom n (words.map token ++ is) =
      addressesFrom (n + (words.map Word.size).sum) is := by
  induction words generalizing n with
  | nil => rfl
  | cons word words ih =>
    rw [List.map_cons, List.cons_append, addressesFrom, ih, List.map_cons, List.sum_cons,
      ← Nat.add_assoc]
    rfl

theorem placed_definitions (labels : List String) (h : Placed true is) :
    Placed true (labels.map definition ++ is) := by
  induction labels with
  | nil => exact h
  | cons name labels ih => exact ⟨fun _ => rfl, ih⟩

/-- Tokens may stand in front of anything that may stand anywhere. -/
theorem placed_tokens (words : List Word) (h : ∀ b, Placed b is) :
    ∀ b, Placed b (words.map token ++ is) := by
  induction words with
  | nil => exact h
  | cons word words ih =>
    intro b
    refine ⟨fun hname => ?_, ih _⟩
    cases hname

/-- A statement can start behind a delimiter. -/
theorem placed_delimiter {d : Word} (hd : d.isDelimiter) (h : Placed true is) (b : Bool) :
    Placed b (.token d :: is) := by
  have hafter : boundaryAfter b (.token d) = true := by
    cases d <;> simp [Word.isDelimiter] at hd <;> rfl
  refine ⟨fun hname => ?_, by rwa [hafter]⟩
  cases hname

end Item

namespace Line

variable (l : Line) {n : Nat} {is : List Item}

theorem filterMap_name?_items : l.items.filterMap Item.name? = l.labels := by
  rw [items, List.filterMap_append, Item.filterMap_name?_definitions, Item.filterMap_name?_tokens,
    List.append_nil]

theorem size_words : ((l.instruction.toList.flatMap Instruction.words).map Word.size).sum
    = l.size := by
  obtain ⟨labels, _ | i⟩ := l
  · rfl
  · show ((i.words ++ []).map Word.size).sum = i.size
    rw [List.append_nil, Instruction.size_words]

theorem size_items : (l.items.map Item.size).sum = l.size := by
  rw [items, List.map_append, List.sum_append, Item.size_definitions, Item.size_tokens,
    size_words, Nat.zero_add]

theorem addressesFrom_items (n : Nat) (is : List Item) :
    Item.addressesFrom n (l.items ++ is) =
      l.labels.map (fun name => (name, n)) ++ Item.addressesFrom (n + l.size) is := by
  rw [items, List.append_assoc, Item.addressesFrom_definitions, Item.addressesFrom_tokens,
    size_words]

theorem placed_items (h : ∀ b, Item.Placed b is) : Item.Placed true (l.items ++ is) := by
  rw [items, List.append_assoc]
  exact Item.placed_definitions _ (Item.placed_tokens _ h true)

end Line

namespace Script

variable {p : Script} {is : List Item}

/-- The items of a script define its labels. -/
theorem Spelled.names (h : Spelled p is) : is.filterMap Item.name? = p.names := by
  induction h with
  | nil => rfl
  | last l => rw [l.filterMap_name?_items, Script.names, List.flatMap_cons, List.flatMap_nil,
      List.append_nil]
  | line l hd _ ih =>
    rw [List.filterMap_append, l.filterMap_name?_items, List.filterMap_cons_none rfl, ih]
    rfl

theorem size_delimiter {d : Word} (hd : d.isDelimiter) : (Item.token d).size = 0 :=
  Statement.size_of_isDelimiter hd

/-- The items of a script take as many bytes as its lines. -/
theorem Spelled.size (h : Spelled p is) : (is.map Item.size).sum = p.size := by
  induction h with
  | nil => rfl
  | last l => simp [l.size_items, Script.size]
  | line l hd _ ih =>
    rw [List.map_append, List.sum_append, l.size_items, List.map_cons, List.sum_cons,
      size_delimiter hd, ih, Nat.zero_add]
    simp [Script.size]

/-- The items of a script put labels at the addresses that the script has for them. -/
theorem Spelled.addressesFrom (h : Spelled p is) (n : Nat) :
    Item.addressesFrom n is = Script.addressesFrom n p := by
  induction h generalizing n with
  | nil => rfl
  | last l =>
    have h := l.addressesFrom_items n []
    rw [List.append_nil] at h
    exact h
  | line l hd _ ih =>
    rw [l.addressesFrom_items, Item.addressesFrom, size_delimiter hd, ih]
    rfl

/-- Labels of a script are defined where a statement can start. -/
theorem Spelled.placed (h : Spelled p is) : Item.Placed true is := by
  induction h with
  | nil => trivial
  | last l =>
    have h := @Line.placed_items l [] fun _ => trivial
    rwa [List.append_nil] at h
  | line l hd _ ih => exact l.placed_items (Item.placed_delimiter hd ih)

end Script

end Asm256
