/-
Numerals of bytes that are read back.

Digits denote a number in a base (`Byte.numeral?`), which is found again in the numerals of a byte:
* `Byte.numeral?_digits` — digits below the base denote their number;
* `Byte.marked?_hex`, `Byte.numeral?_binary` — the hexadecimal and the binary numeral of a byte;
* `Byte.isLine_hex`, `Byte.isLine_binary` — either stands on a line of its own;
* `Byte.Faithful.read_eq`, `Byte.Faithful.eq_iff` — what numbers of any size are read back as, and
  which of them are written in one way.

The main result is `Byte.lines_read_back`.
-/
import Asm256.Byte.Numeral
import Asm256.Proofs.Byte.Wrapping
import Asm256.Proofs.Machine.LineRoundTrip

namespace Asm256.Byte

/-! ### Numerals in a base -/

/-- The number that a character stands for as a digit, with the letters `a` to `f` behind 9. -/
def digit? (c : Char) : Option Nat :=
  if '0' ≤ c ∧ c ≤ '9' then some (c.toNat - '0'.toNat)
  else if 'a' ≤ c ∧ c ≤ 'f' then some (c.toNat - 'a'.toNat + 10)
  else none

/-- The number with one more digit behind it, which has to be below the base. -/
def extend? (base n : Nat) (c : Char) : Option Nat :=
  match digit? c with
  | some d => if d < base then some (n * base + d) else none
  | none => none

/-- The number that characters denote in a base, if there are any and all are digits of it. -/
def numeral? (base : Nat) (cs : List Char) : Option Nat :=
  if cs.isEmpty then none else cs.foldlM (extend? base) 0

/-- The number that a numeral behind the mark `0x` denotes. -/
def marked? : List Char → Option Nat
  | '0' :: 'x' :: cs => numeral? 16 cs
  | _ => none

theorem digit?_digitChar : ∀ d < 16, digit? (Nat.digitChar d) = some d := by decide

theorem foldlM_digits {base : Nat} (hbase : base ≤ 16) {ds : List Nat} (h : ∀ d ∈ ds, d < base)
    (n : Nat) : (ds.map Nat.digitChar).foldlM (extend? base) n =
      some (ds.foldl (fun n d => n * base + d) n) := by
  induction ds generalizing n with
  | nil => rfl
  | cons d ds ih =>
    obtain ⟨hd, hds⟩ := List.forall_mem_cons.1 h
    have hextend : extend? base n (Nat.digitChar d) = some (n * base + d) := by
      rw [extend?, digit?_digitChar d (hd.trans_le hbase)]
      exact if_pos hd
    rw [List.map_cons, List.foldlM_cons, hextend, List.foldl_cons]
    exact ih hds _

/-- **Digits below the base denote their number.** -/
theorem numeral?_digits {base : Nat} (hbase : base ≤ 16) {ds : List Nat} (hne : ds ≠ [])
    (h : ∀ d ∈ ds, d < base) :
    numeral? base (ds.map Nat.digitChar) = some (ds.foldl (fun n d => n * base + d) 0) := by
  rw [numeral?, if_neg (by simpa using hne), foldlM_digits hbase h]

/-- The digits of a number at the lowest places, the highest first, denote it as far as these go. -/
theorem foldl_places (base value k n : Nat) :
    ((List.range k).reverse.map fun i => value / base ^ i % base).foldl (fun n d => n * base + d) n =
      n * base ^ k + value % base ^ k := by
  induction k generalizing n with
  | zero => simp [Nat.mod_one]
  | succ k ih =>
    rw [List.range_succ, List.reverse_concat, List.map_cons, List.foldl_cons, ih, Nat.mod_pow_succ]
    ring

/-! ### Numerals of bytes -/

variable (b : UInt8)

theorem numeral?_hexDigits : numeral? 16 (hexDigits b) = some b.toNat := by
  have hb := b.toNat_lt
  have hdigits : hexDigits b = [b.toNat / 16, b.toNat % 16].map Nat.digitChar := rfl
  rw [hdigits, numeral?_digits (by decide) (by simp) (by simp; omega)]
  simp only [List.foldl_cons, List.foldl_nil, Option.some_inj]
  omega

theorem numeral?_binaryDigits : numeral? 2 (binaryDigits b) = some b.toNat := by
  have hdigits : binaryDigits b =
      ((List.range 8).reverse.map fun i => b.toNat / 2 ^ i % 2).map Nat.digitChar := rfl
  have hbits : ∀ d ∈ (List.range 8).reverse.map fun i => b.toNat / 2 ^ i % 2, d < 2 := by
    intro d hd
    obtain ⟨i, -, rfl⟩ := List.mem_map.1 hd
    exact Nat.mod_lt _ (by decide)
  rw [hdigits, numeral?_digits (by decide) (by simp) hbits, foldl_places, Nat.zero_mul, Nat.zero_add,
    Nat.mod_eq_of_lt b.toNat_lt]

theorem toList_hex : (hex b.toNat).toList = '0' :: 'x' :: hexDigits b := by
  have hmark : "0x".toList = ['0', 'x'] := by decide
  rw [hex, bareHex, wrap_toNat, String.toList_append, hmark, String.toList_ofList]
  rfl

theorem toList_binary : (binary b.toNat).toList = binaryDigits b := by
  rw [binary, wrap_toNat, String.toList_ofList]

theorem marked?_hex : marked? (hex b.toNat).toList = some b.toNat := by
  rw [toList_hex]
  exact numeral?_hexDigits b

theorem numeral?_binary : numeral? 2 (binary b.toNat).toList = some b.toNat := by
  rw [toList_binary]
  exact numeral?_binaryDigits b

theorem isDigit_hexDigits : ∀ c ∈ hexDigits b, ∃ d < 16, Nat.digitChar d = c := by
  have hb := b.toNat_lt
  refine List.forall_mem_cons.2 ⟨⟨_, ?_, rfl⟩, List.forall_mem_singleton.2 ⟨_, ?_, rfl⟩⟩ <;> omega

theorem isDigit_binaryDigits : ∀ c ∈ binaryDigits b, ∃ d < 2, Nat.digitChar d = c := by
  intro c hc
  obtain ⟨i, -, rfl⟩ := List.mem_map.1 hc
  exact ⟨_, Nat.mod_lt _ (by decide), rfl⟩

theorem isLine_of_digits {base : Nat} (hbase : base ≤ 16) {cs : List Char}
    (h : ∀ c ∈ cs, ∃ d < base, Nat.digitChar d = c) : LineStream.IsLine cs := by
  have hne : ∀ d < 16, Nat.digitChar d ≠ '\n' ∧ Nat.digitChar d ≠ '\r' := by decide
  constructor
  · intro hmem
    obtain ⟨d, hd, heq⟩ := h _ hmem
    exact (hne d (hd.trans_le hbase)).1 heq
  · intro hlast
    obtain ⟨d, hd, heq⟩ := h _ (List.mem_of_getLast? hlast)
    exact (hne d (hd.trans_le hbase)).2 heq

theorem isLine_binary : LineStream.IsLine (binary b.toNat).toList := by
  rw [toList_binary]
  exact isLine_of_digits (by decide) (isDigit_binaryDigits b)

theorem isLine_hex : LineStream.IsLine (hex b.toNat).toList := by
  rw [toList_hex]
  obtain ⟨hn, hlast⟩ := isLine_of_digits (by decide) (isDigit_hexDigits b)
  constructor
  · simpa using hn
  · -- there are two digits behind the mark
    rw [List.getLast?_cons_cons]
    exact hlast

/-! ### Numbers of any size -/

/-- Numbers are written by their bytes, and what is written of a byte is read as that byte. -/
structure Faithful (write : Int → String) (read : List Char → Option Nat) : Prop where
  write_wrap : ∀ x, write (wrap x).toNat = write x
  read_write : ∀ b : UInt8, read (write b.toNat).toList = some b.toNat

theorem faithful_hex : Faithful hex marked? where
  write_wrap x := by rw [hex, hex, bareHex, bareHex, wrap_toNat]
  read_write := marked?_hex

theorem faithful_binary : Faithful binary (numeral? 2) where
  write_wrap x := by rw [binary, binary, wrap_toNat]
  read_write := numeral?_binary

namespace Faithful

variable {write : Int → String} {read : List Char → Option Nat} {x y : Int} {xs ys : List Int}

theorem read_eq (h : Faithful write read) (x : Int) :
    read (write x).toList = some (x % 256).toNat := by
  rw [← h.write_wrap, h.read_write, ← toNat_wrap, Int.toNat_natCast]

/-- **Two numbers are written in one way exactly if they are congruent.** -/
theorem eq_iff (h : Faithful write read) : write x = write y ↔ x ≡ y [ZMOD 256] := by
  refine ⟨fun heq => ?_, fun hmod => ?_⟩
  · have hread : some (x % 256).toNat = some (y % 256).toNat := by
      rw [← h.read_eq, ← h.read_eq, heq]
    rw [Option.some_inj] at hread
    show x % 256 = y % 256
    omega
  · rw [← h.write_wrap x, ← h.write_wrap y, wrap_eq_wrap_iff.2 hmod]

theorem map_read (h : Faithful write read) (xs : List Int) :
    (xs.map write).map (fun line => read line.toList) = xs.map fun x => some (x % 256).toNat := by
  rw [List.map_map]
  exact List.map_congr_left fun x _ => h.read_eq x

theorem map_eq_map_iff (h : Faithful write read) :
    xs.map write = ys.map write ↔ List.Forall₂ (Int.ModEq 256) xs ys := by
  rw [← List.forall₂_eq_eq_eq, List.forall₂_map_left_iff, List.forall₂_map_right_iff]
  simp only [h.eq_iff]

end Faithful

/-- A number is written in hexadecimal by the mark and two digits in lower case. -/
theorem toList_hex_eq (x : Int) : ∃ a ∈ "0123456789abcdef".toList,
    ∃ b ∈ "0123456789abcdef".toList, (hex x).toList = ['0', 'x', a, b] := by
  have hdigit : ∀ d < 16, Nat.digitChar d ∈ "0123456789abcdef".toList := by decide
  have hb := (wrap x).toNat_lt
  rw [← faithful_hex.write_wrap, toList_hex]
  refine ⟨_, hdigit _ ?_, _, hdigit _ ?_, rfl⟩ <;> omega

/-- A number is written in binary by eight digits. -/
theorem length_binary (x : Int) :
    (binary x).length = 8 ∧ ∀ c ∈ (binary x).toList, c = '0' ∨ c = '1' := by
  have hdigit : ∀ d < 2, Nat.digitChar d = '0' ∨ Nat.digitChar d = '1' := by decide
  rw [← String.length_toList, ← faithful_binary.write_wrap, toList_binary]
  refine ⟨rfl, fun c hc => ?_⟩
  obtain ⟨d, hd, rfl⟩ := isDigit_binaryDigits _ c hc
  exact hdigit d hd

/-- **Listings of bytes are read back**, for lists of numbers of any size and sign.  There is one
line for each number: in hexadecimal the mark and two digits in lower case, in binary eight digits.
Each is the numeral of the number modulo 256; so two lists have one listing exactly if they are
congruent modulo 256, element by element. -/
theorem lines_read_back (xs ys : List Int) :
    ((hexLines xs).length = xs.length ∧ (binaryLines xs).length = xs.length) ∧
    (∀ line ∈ hexLines xs, ∃ a ∈ "0123456789abcdef".toList, ∃ b ∈ "0123456789abcdef".toList,
      line.toList = ['0', 'x', a, b]) ∧
    (∀ line ∈ binaryLines xs, line.length = 8 ∧ ∀ c ∈ line.toList, c = '0' ∨ c = '1') ∧
    (hexLines xs).map (fun line => marked? line.toList) = xs.map (fun x => some (x % 256).toNat) ∧
    (binaryLines xs).map (fun line => numeral? 2 line.toList) =
      xs.map (fun x => some (x % 256).toNat) ∧
    (hexLines xs = hexLines ys ↔ List.Forall₂ (Int.ModEq 256) xs ys) ∧
    (binaryLines xs = binaryLines ys ↔ List.Forall₂ (Int.ModEq 256) xs ys) := by
  refine ⟨⟨List.length_map _, List.length_map _⟩, ?_, ?_, faithful_hex.map_read xs,
    faithful_binary.map_read xs, faithful_hex.map_eq_map_iff, faithful_binary.map_eq_map_iff⟩
  · exact List.forall_mem_map.2 fun x _ => toList_hex_eq x
  · exact List.forall_mem_map.2 fun x _ => length_binary x

/-- Negative numbers and numbers that are no bytes, with the bytes they come to. -/
theorem lines_read_back_congruent :
    List.Forall₂ (Int.ModEq 256) [-1, 267] [255, 11] ∧ hexLines [-1, 267] = hexLines [255, 11] ∧
      "0x0b" ∈ hexLines [-1, 267] ∧ (hexLines [-1, 267]).map (fun line => marked? line.toList) =
        [some 255, some 11] := by
  have hcongruent : List.Forall₂ (Int.ModEq 256) [-1, 267] [255, 11] :=
    .cons (by decide) (.cons (by decide) .nil)
  obtain ⟨-, -, -, hread, -, hequal, -⟩ := lines_read_back [-1, 267] [255, 11]
  exact ⟨hcongruent, hequal.2 hcongruent, by decide, hread⟩

end Asm256.Byte
