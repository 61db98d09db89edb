/-
Writers under calls.

Numbers are written one call after the other, and a call that fails does not end this
(`Writer.calls`).  As long as there is room a byte is written behind those that have been, and from
then on every call fails and leaves the writer as it is:
* `Writer.run_writeInPlace` — a call looks for room before it changes anything;
* `Writer.calls_of_writeAll`, `Writer.Wrote.calls_of_full` — calls that there is room for, and calls
  that there is none for;
* `Writer.Wrote.exists_calls` — so what any number of calls comes to.

The main result is `Writer.calls_fill_memory`.
-/
import Asm256.Assembly
import Asm256.Proofs.Image.Layout

namespace Asm256.Writer

/-! ### One call -/

/-- What a call comes to, and the writer behind it. -/
def call (w : Writer) (value : Int) : Except InternalError Unit × Writer :=
  match w.write value with
  | some w' => (.ok (), w')
  | none => (.error .imageFull, w)

/-- A call as it is carried out, on bytes and a cursor of which nothing is known: if there is room,
the byte is stored at the cursor, and then the cursor moves on. -/
def writeInPlace (value : Int) : EStateM InternalError (List UInt8 × Nat) Unit := do
  if memorySize ≤ (← get).2 then throw .imageFull
  modify fun (bytes, cursor) => (bytes.set cursor (Byte.wrap value), cursor)
  modify fun (bytes, cursor) => (bytes, cursor + 1)

variable {w : Writer} {bs : List UInt8}

/-- **A call in place is one of the whole writer**, also when it fails. -/
theorem run_writeInPlace (w : Writer) (value : Int) :
    (writeInPlace value).run (w.memory.toList, w.cursor) =
      match w.call value with
      | (.ok (), w') => .ok () (w'.memory.toList, w'.cursor)
      | (.error e, w') => .error e (w'.memory.toList, w'.cursor) := by
  rw [writeInPlace, EStateM.run_bind, EStateM.run_get]
  by_cases h : w.cursor < memorySize
  · have hcall : w.call value =
        (.ok (), ⟨w.memory.set w.cursor (Byte.wrap value), w.cursor + 1, h⟩) := by
      rw [call, write, dif_pos h]
    simp only [hcall, if_neg (Nat.not_le.2 h), EStateM.run_bind, EStateM.run_modify,
      Vector.toList_set]
  · have hcall : w.call value = (.error .imageFull, w) := by
      rw [call, write, dif_neg h]
    simp only [hcall, if_pos (Nat.le_of_not_lt h), EStateM.run_bind, EStateM.run_throw]

/-- A call on a writer without room fails, and leaves the writer as it is. -/
theorem Wrote.call_of_full (h : w.Wrote bs) (hle : memorySize ≤ bs.length) (value : Int) :
    w.call value = (.error .imageFull, w) := by
  rw [Writer.call, h.write_eq_none hle]

/-! ### Any number of calls -/

/-- What calls come to, each whether or not those in front of it have failed, and the writer behind
them. -/
def calls (w : Writer) : List Int → List (Except InternalError Unit) × Writer
  | [] => ([], w)
  | value :: values =>
      ((w.call value).1 :: ((w.call value).2.calls values).1, ((w.call value).2.calls values).2)

theorem calls_append (w : Writer) (xs ys : List Int) :
    w.calls (xs ++ ys) =
      ((w.calls xs).1 ++ ((w.calls xs).2.calls ys).1, ((w.calls xs).2.calls ys).2) := by
  induction xs generalizing w with
  | nil => rfl
  | cons x xs ih => rw [List.cons_append, calls, calls, ih, List.cons_append]

/-- Numbers that can all be written are written by calls that succeed. -/
theorem calls_of_writeAll {values : List Int} {w' : Writer} (h : w.writeAll values = some w') :
    w.calls values = (List.replicate values.length (.ok ()), w') := by
  induction values generalizing w with
  | nil =>
    cases h
    rfl
  | cons v vs ih =>
    rw [writeAll, List.foldlM_cons, Option.bind_eq_bind, Option.bind_eq_some_iff] at h
    obtain ⟨w₁, hw₁, hrest⟩ := h
    have hcall : w.call v = (.ok (), w₁) := by
      rw [call, hw₁]
    rw [calls, hcall, ih hrest, List.length_cons, List.replicate_succ]

/-- Without room every call fails, and the writer stays as it is. -/
theorem Wrote.calls_of_full (h : w.Wrote bs) (hle : memorySize ≤ bs.length) (values : List Int) :
    w.calls values = (List.replicate values.length (.error .imageFull), w) := by
  induction values with
  | nil => rfl
  | cons v vs ih =>
    rw [Writer.calls, h.call_of_full hle, ih, List.length_cons, List.replicate_succ]

/-- **Any number of calls**: the first ones that there is room for succeed, the others fail, and
what has been written are the bytes of the first. -/
theorem Wrote.exists_calls (h : w.Wrote bs) {room : Nat} (hroom : bs.length + room = memorySize)
    (values : List Int) :
    ∃ w', w.calls values =
        (List.replicate (min room values.length) (Except.ok ()) ++
          List.replicate (values.length - room) (Except.error InternalError.imageFull), w') ∧
      w'.Wrote (bs ++ (values.take room).map Byte.wrap) := by
  have htake : (values.take room).length = min room values.length := List.length_take
  have hfits : bs.length + (values.take room).length ≤ memorySize := by omega
  obtain ⟨w', hfirst, hwrote⟩ := h.writeAll hfits
  have hrest : w'.calls (values.drop room) =
      (List.replicate (values.length - room) (.error .imageFull), w') := by
    rw [← List.length_drop]
    -- there are calls behind the first ones only if these have taken all the room
    by_cases hmore : values.length ≤ room
    · rw [List.drop_of_length_le hmore]
      rfl
    · refine hwrote.calls_of_full ?_ _
      rw [List.length_append, List.length_map]
      omega
  have hsplit := calls_append w (values.take room) (values.drop room)
  rw [List.take_append_drop, calls_of_writeAll hfirst, hrest, htake] at hsplit
  exact ⟨w', hsplit, hwrote⟩

/-- **A writer never loses, reorders or overruns bytes**, whatever numbers are written and however
often.  For any number of calls on an empty writer, also behind calls that have failed,
* the first 256 succeed and the others fail;
* a call behind them is carried out in place as on the whole writer, and leaves the memory and the
  cursor as they are if there have been 256;
* the cursor is the number of calls, or 256 if there are more;
* the memory has 256 bytes, which are the numbers modulo 256 in the order of the calls up to the
  cursor, and zero from there on. -/
theorem calls_fill_memory (values : List Int) :
    let w := (empty.calls values).2
    (empty.calls values).1 = List.replicate (min memorySize values.length) (Except.ok ()) ++
        List.replicate (values.length - memorySize) (Except.error InternalError.imageFull) ∧
      (∀ value, (writeInPlace value).run (w.memory.toList, w.cursor) =
        match w.call value with
        | (.ok (), w') => .ok () (w'.memory.toList, w'.cursor)
        | (.error e, w') => .error e (w'.memory.toList, w'.cursor)) ∧
      (memorySize ≤ values.length → ∀ value, w.call value = (.error .imageFull, w)) ∧
      w.cursor = min values.length memorySize ∧
      w.memory.toList.length = memorySize ∧
      (∀ i < w.cursor, ∃ (value : Int) (b : UInt8), values[i]? = some value ∧
        w.memory[i]? = some b ∧ (b.toNat : Int) = value % 256) ∧
      ∀ i, w.cursor ≤ i → i < memorySize → w.memory[i]? = some 0 := by
  intro w
  obtain ⟨w', hcalls, hwrote⟩ := wrote_empty.exists_calls (Nat.zero_add memorySize) values
  obtain rfl : w' = w := (congrArg Prod.snd hcalls).symm
  rw [List.nil_append] at hwrote
  have hlength :
      ((values.take memorySize).map Byte.wrap).length = min values.length memorySize := by
    rw [List.length_map, List.length_take, Nat.min_comm]
  have hcursor := hwrote.cursor_eq.trans hlength
  refine ⟨congrArg Prod.fst hcalls, run_writeInPlace _,
    fun hle value => hwrote.call_of_full (by omega) value, hcursor, Vector.length_toList, ?_, ?_⟩
  · intro i hi
    obtain ⟨hvalues, hmemory⟩ := Nat.lt_min.1 (hcursor ▸ hi)
    refine ⟨values[i], Byte.wrap values[i], List.getElem?_eq_getElem hvalues, ?_, Byte.toNat_wrap _⟩
    rw [hwrote.holds.getElem?_of_lt (hwrote.cursor_eq ▸ hi), List.getElem?_map,
      List.getElem?_take_of_lt hmemory, List.getElem?_eq_getElem hvalues]
    rfl
  · intro i hle hlt
    exact hwrote.holds.getElem?_of_le (hwrote.cursor_eq ▸ hle) hlt

/-- The last byte of the memory, and what is written behind it. -/
theorem calls_fill_memory_last :
    let values : List Int := List.replicate 255 7 ++ [-1, 8, 9]
    let w := (empty.calls values).2
    memorySize ≤ values.length ∧ w.cursor = 256 ∧ w.call 10 = (.error .imageFull, w) ∧
      (empty.calls values).1 = List.replicate 256 (Except.ok ()) ++
        [Except.error InternalError.imageFull, Except.error InternalError.imageFull] ∧
      ∃ b : UInt8, w.memory[255]? = some b ∧ b.toNat = 255 := by
  intro values w
  have hlength : values.length = 258 := by
    rw [List.length_append, List.length_replicate]
    rfl
  have hlast : values[255]? = some (-1) := by
    rw [List.getElem?_append_right (by rw [List.length_replicate]), List.length_replicate]
    rfl
  have hle : memorySize ≤ values.length := by
    rw [hlength]
    decide
  obtain ⟨hresults, -, hfull, hcursor, -, hfilled, -⟩ := calls_fill_memory values
  rw [hlength] at hresults hcursor
  obtain ⟨value, b, hvalue, hb, hmod⟩ := hfilled 255 (by rw [hcursor]; decide)
  obtain rfl : -1 = value := Option.some.inj (hlast.symm.trans hvalue)
  refine ⟨hle, hcursor, hfull hle 10, hresults, b, hb, ?_⟩
  omega

end Asm256.Writer
