/-
Messages that are shown as they are.

What a console makes of a message is its own affair, unless the message leaves it nothing to do
(`Message.Plain`): then it is written as it is, on a line of its own (`Console.Faithful`).
* `Console.faithful_fixedWidth` — the console at hand is faithful;
* `Message.plain_of_short`, `Message.plain_of_short_colon` — short texts of visible characters are
  plain;
* `Listing.Sweeps.plain_of_mem_lines`, `Session.plain_of_mem_dump` — the lines of a listing are plain,
  and those that show registers and flags.
-/
import Asm256.CommandLine.Session
import Asm256.Proofs.Byte.Numerals
import Asm256.Proofs.Listing.Execution
import Asm256.Proofs.Listing.Written
import Asm256.Proofs.Machine.Failure

namespace Asm256

/-- There is nothing in the message for a console to do.  Its text has no controls, no marks if these
are followed, and no name of a picture between two colons.  It is short and of characters that take
one column each, or its lines are not broken and it has no blank at its end. -/
structure Message.Plain (pictures : String → Prop) (m : Message) : Prop where
  noControl : ∀ c ∈ m.text.toList, 32 ≤ c.toNat ∧ (c.toNat < 127 ∨ 160 ≤ c.toNat)
  noMark : m.markup = true → '[' ∉ m.text.toList
  noPicture : ∀ name, pictures name → ¬ ':' :: (name.toList ++ [':']) <:+: m.text.toList
  noBreak : (∀ c ∈ m.text.toList, c.toNat < 127) ∧ m.text.toList.length ≤ Console.width ∨
    m.softWrap = true ∧ ∀ c ∈ m.text.toList.getLast?, Text.isBlank c = false

/-- The console writes plain messages as they are, each on a line of its own.  So does one that writes
to a file or to a pipe, where styles are not shown, and is no narrower than `Console.width`.  The
`pictures` are the names that it may replace. -/
structure Console.Faithful (pictures : String → Prop) (C : Console) : Prop where
  output_eq : ∀ m : Message, m.Plain pictures → C.output m = m.text ++ "\n"
  errors_eq : ∀ m : Message, m.Plain pictures → C.errors m = m.text ++ "\n"

/-! ### The console at hand -/

namespace Console

variable {cs : List Char}

theorem expandTabs_of_notMem (h : '\t' ∉ cs) (column : Nat) : expandTabs column cs = cs := by
  induction cs generalizing column with
  | nil => rfl
  | cons c cs ih =>
    obtain ⟨hc, hcs⟩ := not_or.1 (mt List.mem_cons.2 h)
    rw [expandTabs, if_neg (Ne.symm hc), ih hcs]

theorem lines_of_notMem (h : '\n' ∉ cs) : lines cs = [cs] := by
  induction cs with
  | nil => rfl
  | cons c cs ih =>
    obtain ⟨hc, hcs⟩ := not_or.1 (mt List.mem_cons.2 h)
    rw [lines, if_neg (Ne.symm hc), ih hcs]

/-- A line keeps its end if that is within the width, or is not blank. -/
theorem cropBlanks_eq_self (h : cs.length ≤ width ∨ ∀ c ∈ cs.getLast?, Text.isBlank c = false) :
    cropBlanks cs = cs := by
  refine List.take_of_length_le ?_
  rcases h with hlen | hlast
  · omega
  · have hnone : cs.reverse.takeWhile Text.isBlank = [] := by
      rw [← List.head?_reverse] at hlast
      cases hreverse : cs.reverse with
      | nil => rfl
      | cons c cs =>
        rw [hreverse] at hlast
        rw [List.takeWhile_cons_of_neg]
        simp [hlast c rfl]
    rw [hnone, List.length_nil]
    omega

/-- **The console at hand writes plain messages as they are**, whatever the names of pictures. -/
theorem faithful_fixedWidth (pictures : String → Prop) : Faithful pictures fixedWidth := by
  have hline : ∀ m : Message, m.Plain pictures → line m.text = m.text ++ "\n" := by
    intro m h
    have hmem : ∀ c ∈ m.text.toList, 32 ≤ c.toNat := fun c hc => (h.noControl c hc).1
    have hnot : ∀ c : Char, c.toNat < 32 → c ∉ m.text.toList := fun c hc hin =>
      absurd (hmem c hin) (by omega)
    have hfilter : (m.text.toList.filter fun c => !droppedControls.contains c.toNat) =
        m.text.toList := by
      refine List.filter_eq_self.2 fun c hc => ?_
      have h32 := hmem c hc
      have hcontains : ¬ c.toNat ∈ droppedControls := by
        simp only [droppedControls, List.mem_cons, List.not_mem_nil, or_false]
        omega
      simpa using hcontains
    have hcrop : cropBlanks m.text.toList = m.text.toList :=
      cropBlanks_eq_self (h.noBreak.imp And.right And.right)
    rw [line, hfilter, lines_of_notMem (hnot '\n' (by decide)), List.map_singleton,
      expandTabs_of_notMem (hnot '\t' (by decide)), hcrop, String.ofList_toList]
    simp [String.join]
  exact ⟨hline, hline⟩

end Console

/-! ### Short texts of visible characters -/

/-- The text has at most `n` characters.  They are visible or spaces, take one column each, and neither
open a mark nor stand around the name of a picture. -/
def Text.Short (n : Nat) (s : String) : Prop :=
  s.toList.length ≤ n ∧ ∀ c ∈ s.toList, 32 ≤ c.toNat ∧ c.toNat < 127 ∧ c ≠ '[' ∧ c ≠ ':'

namespace Text

variable {k m n : Nat} {s t : String}

theorem short_iff : Short n s ↔ s.length ≤ n ∧
    ∀ c ∈ s.toList, 32 ≤ c.toNat ∧ c.toNat < 127 ∧ c ≠ '[' ∧ c ≠ ':' := by
  rw [Short, String.length_toList]

theorem Short.mono (h : Short m s) (hle : m ≤ n) : Short n s :=
  ⟨h.1.trans hle, h.2⟩

theorem Short.append (hs : Short m s) (ht : Short n t) : Short (m + n) (s ++ t) := by
  rw [Short, String.toList_append, List.length_append]
  exact ⟨Nat.add_le_add hs.1 ht.1, List.forall_mem_append.2 ⟨hs.2, ht.2⟩⟩

theorem Short.count_colon (h : Short n s) : s.toList.count ':' = 0 :=
  List.count_eq_zero.2 fun hmem => (h.2 _ hmem).2.2.2 rfl

theorem Short.pushn (h : Short m s) (n : Nat) : Short (m + n) (s.pushn ' ' n) := by
  rw [String.pushn_eq_repeat_push]
  induction n with
  | zero => exact h
  | succ n ih =>
    rw [Nat.repeat, String.push_eq_append]
    exact ih.append (short_iff.2 ⟨le_refl _, by simp⟩)

theorem Short.padLeft (h : Short n s) (w : Nat) : Short (max w n) (padLeft w s) := by
  have hempty : Short 0 "" := ⟨le_refl _, by simp⟩
  refine ⟨?_, ((hempty.pushn _).append h).2⟩
  have hlen := (short_iff.1 h).1
  rw [String.length_toList, Text.padLeft, String.length_append, String.length_pushn]
  show 0 + (w - s.length) + s.length ≤ max w n
  omega

theorem Short.padRight (h : Short n s) (w : Nat) : Short (max w n) (padRight w s) := by
  refine ⟨?_, (h.pushn _).2⟩
  have hlen := (short_iff.1 h).1
  rw [String.length_toList, Text.padRight, String.length_pushn]
  omega

theorem Short.intercalate (hs : Short k s) {l : List String} (h : ∀ t ∈ l, Short n t) :
    Short (l.length * (n + k)) (s.intercalate l) := by
  rw [Short, String.toList_intercalate]
  induction l with
  | nil => exact ⟨Nat.zero_le _, by simp⟩
  | cons t ts ih =>
    obtain ⟨ht, hts⟩ := List.forall_mem_cons.1 h
    obtain ⟨hlen, hmem⟩ := ih hts
    rcases ts with _ | ⟨u, ts⟩
    · refine ⟨?_, by simpa using ht.2⟩
      have hle := ht.1
      simp only [List.map_cons, List.map_nil, List.intercalate_singleton, List.length_singleton]
      omega
    · have hle := ht.1
      have hsep := hs.1
      rw [List.map_cons, List.map_cons, List.intercalate_cons_cons, ← List.map_cons]
      refine ⟨?_, ?_⟩
      · simp only [List.length_append, List.length_cons, Nat.add_mul] at hlen ⊢
        omega
      · simp only [List.forall_mem_append]
        exact ⟨⟨ht.2, hs.2⟩, hmem⟩

/-- A number is as long as its digits. -/
theorem short_toString (hn : n < 10 ^ m) (hm : 0 < m) : Short m (toString n) := by
  rw [Short, Nat.toString_eq_repr, Nat.toList_repr]
  refine ⟨(Nat.length_toDigits_le_iff (by omega) hm).2 hn, fun c hc => ?_⟩
  have hdigit := Nat.isDigit_of_mem_toDigits (by omega) (by omega) hc
  rw [Char.isDigit, Bool.and_eq_true, decide_eq_true_eq, decide_eq_true_eq] at hdigit
  have hc : 0x30 ≤ c.toNat ∧ c.toNat ≤ 0x39 := hdigit
  refine ⟨by omega, by omega, ?_, ?_⟩
  · exact Char.ne_of_toNat (by show c.toNat ≠ 0x5B; omega)
  · exact Char.ne_of_toNat (by show c.toNat ≠ 0x3A; omega)

/-- The number of a byte has three digits at most. -/
theorem short_byte (b : UInt8) : Short 3 (toString b.toNat) := by
  have hb := b.toNat_lt
  exact short_toString (by omega) (by omega)

end Text

/-! ### Plain messages -/

namespace Message

variable {pictures : String → Prop} {msg : Message} {m n : Nat} {s t : String}

/-- Between two colons there would have to be two colons. -/
theorem noPicture_of_count (h : msg.text.toList.count ':' ≤ 1) (name : String) :
    ¬ ':' :: (name.toList ++ [':']) <:+: msg.text.toList := by
  intro hinfix
  have hcount := hinfix.sublist.count_le ':'
  simp only [List.count_cons_self, List.count_append, List.count_nil] at hcount
  omega

theorem plain_of_visible (hvisible : ∀ c ∈ msg.text.toList, 32 ≤ c.toNat ∧ c.toNat < 127 ∧ c ≠ '[')
    (hlen : msg.text.toList.length ≤ Console.width) (hcolon : msg.text.toList.count ':' ≤ 1) :
    msg.Plain pictures where
  noControl c hc := ⟨(hvisible c hc).1, .inl (hvisible c hc).2.1⟩
  noMark _ hmem := (hvisible _ hmem).2.2 rfl
  noPicture name _ := noPicture_of_count hcolon name
  noBreak := .inl ⟨fun c hc => (hvisible c hc).2.1, hlen⟩

/-- **A short text of visible characters is plain**, however it is to be shown. -/
theorem plain_of_short (htext : msg.text = s) (h : Text.Short Console.width s) :
    msg.Plain pictures := by
  subst htext
  exact plain_of_visible (fun c hc => ⟨(h.2 c hc).1, (h.2 c hc).2.1, (h.2 c hc).2.2.1⟩) h.1
    (by rw [h.count_colon]; omega)

/-- One colon in the text does not change that. -/
theorem plain_of_short_colon (htext : msg.text = s ++ ":" ++ t) (hs : Text.Short m s)
    (ht : Text.Short n t) (hle : m + 1 + n ≤ Console.width) : msg.Plain pictures := by
  have hlist : msg.text.toList = s.toList ++ ':' :: t.toList := by
    rw [htext, String.toList_append, String.toList_append, List.append_assoc]
    rfl
  have hs' := hs.1
  have ht' := ht.1
  refine plain_of_visible ?_ ?_ ?_
  · rw [hlist, List.forall_mem_append, List.forall_mem_cons]
    exact ⟨fun c hc => ⟨(hs.2 c hc).1, (hs.2 c hc).2.1, (hs.2 c hc).2.2.1⟩, by decide,
      fun c hc => ⟨(ht.2 c hc).1, (ht.2 c hc).2.1, (ht.2 c hc).2.2.1⟩⟩
  · rw [hlist, List.length_append, List.length_cons]
    omega
  · rw [hlist, List.count_append, List.count_cons_self, hs.count_colon, ht.count_colon]

end Message

/-! ### The lines of a listing -/

theorem Mnemonic.short_name (m : Mnemonic) : Text.Short 5 m.name := by
  cases m <;> simp [Text.Short, name]

theorem length_letters {n : Nat} (hn : n < 26 * 26) : (letters n []).length ≤ 2 := by
  rw [letters]
  split
  · simp
  · rw [letters, if_pos (by omega)]
    simp

theorem short_labelName {n : Nat} (hn : n < 26 * 26) : Text.Short 4 (labelName n) := by
  have hlen := length_letters hn
  refine ⟨by rw [toList_labelName, List.length_cons, List.length_cons]; omega, fun c hc => ?_⟩
  have hname := Item.isNameChar_iff.1 ((Item.labelName_labelName n).isNameChar c hc)
  refine ⟨by omega, by omega, ?_, ?_⟩
  · exact Char.ne_of_toNat (by show c.toNat ≠ 0x5B; omega)
  · exact Char.ne_of_toNat (by show c.toNat ≠ 0x3A; omega)

theorem OperandKind.short_written (k : OperandKind) (v : UInt8) : Text.Short 4 (k.written v) := by
  have hv := v.toNat_lt
  cases k with
  | register => exact (show Text.Short 1 "R" by simp [Text.Short]).append (Text.short_byte v)
  | memory => exact (Text.short_byte v).mono (by omega)
  | label => exact short_labelName (by omega)
  | literal => exact (show Text.Short 1 "#" by simp [Text.Short]).append (Text.short_byte v)

theorem Byte.short_bareHex (b : UInt8) : Text.Short 2 (bareHex b.toNat) := by
  have hdigit : ∀ d < 16, 32 ≤ (Nat.digitChar d).toNat ∧ (Nat.digitChar d).toNat < 127 ∧
      Nat.digitChar d ≠ '[' ∧ Nat.digitChar d ≠ ':' := by decide
  rw [Text.Short, bareHex, wrap_toNat, String.toList_ofList]
  refine ⟨le_refl _, fun c hc => ?_⟩
  obtain ⟨d, hd, rfl⟩ := isDigit_hexDigits b c hc
  exact hdigit d hd

namespace Entry

variable {e : Entry} {bytes : List UInt8}

theorem Heads.length_raw_le (h : e.Heads bytes) : e.raw.length ≤ 4 := by
  cases h with
  | @instruction n op values rest hlen =>
    have hkinds := op.operation.length_kinds_le
    rw [raw, List.length_cons, List.length_map, List.length_zip]
    omega
  | data _ => exact Nat.le_of_ble_eq_true rfl

theorem short_text_instruction {a : Nat} {op : Opcode} {m : Mnemonic}
    {os : List (OperandKind × UInt8)} (hlen : os.length ≤ 3) :
    Text.Short 24 (instruction a op m os).text := by
  rcases os with _ | ⟨o, os⟩
  · exact m.short_name.mono (by omega)
  · have hname : Text.Short (5 + 1) (m.name ++ " ") :=
      m.short_name.append (by simp [Text.Short])
    have hwritten := Text.Short.intercalate (s := ", ") (k := 2) (n := 4) (by simp [Text.Short])
      (l := (o :: os).map fun o => o.1.written o.2) fun t ht => by
        obtain ⟨o, -, rfl⟩ := List.mem_map.1 ht
        exact o.1.short_written o.2
    rw [List.length_map] at hwritten
    exact (hname.append hwritten).mono (by omega)

theorem short_text_data (a : Nat) (b : UInt8) : Text.Short 24 (data a b).text := by
  have hmark : Text.Short (6 + 2) (".byte " ++ "0x") := by simp [Text.Short]
  have htext := hmark.append (Byte.short_bareHex b)
  rw [String.append_assoc] at htext
  exact htext.mono (by omega)

theorem Heads.short_text (h : e.Heads bytes) : Text.Short 24 e.text := by
  cases h with
  | @instruction n op values rest hlen =>
    have hkinds := op.operation.length_kinds_le
    exact short_text_instruction (by rw [List.length_zip]; omega)
  | data _ => exact short_text_data _ _

end Entry

namespace Listing

variable {pictures : String → Prop} {memory : List UInt8} {codeSize : Nat} {es : List Entry}
  {e : Entry} {msg : Message}

/-- **The line of an entry is plain.** -/
theorem plain_line {bytes : List UInt8} (h : e.Heads bytes) (ha : e.address < 1000)
    (htext : msg.text = line e) : msg.Plain pictures := by
  have hspace : ∀ s : String, s = " " ∨ s = "  " → Text.Short 2 s := by
    rintro s (rfl | rfl) <;> simp [Text.Short]
  have haddress := (hspace "  " (.inr rfl)).append
    ((Text.short_toString (m := 3) ha (by omega)).padLeft 3)
  have hraw := Text.Short.intercalate (hspace " " (.inl rfl)) (n := 2)
    (l := e.raw.map fun b => Byte.bareHex b.toNat) fun t ht => by
      obtain ⟨b, -, rfl⟩ := List.mem_map.1 ht
      exact Byte.short_bareHex b
  rw [List.length_map] at hraw
  have hbehind := ((hspace " " (.inl rfl)).append (hraw.padRight 12)).append
    ((hspace " " (.inl rfl)).append h.short_text)
  have hlen := h.length_raw_le
  refine Message.plain_of_short_colon (htext.trans ?_) haddress hbehind ?_
  · have hcolon : (": " : String) = ":" ++ " " := rfl
    simp only [line, hcolon, String.append_assoc]
    rfl
  · show 2 + max 3 3 + 1 + (2 + max 12 _ + (2 + 24)) ≤ 80
    omega

/-- The line of a label is plain. -/
theorem plain_label {n : Nat} (hn : n < 26 * 26) (htext : msg.text = labelName n ++ ":") :
    msg.Plain pictures :=
  Message.plain_of_short_colon (t := "") (n := 0) (by rw [htext, String.append_empty])
    (short_labelName hn) (by simp [Text.Short]) (by decide)

/-- **The lines of a listing are plain.** -/
theorem Sweeps.plain_of_mem_lines {bytes : List UInt8} (h : Sweeps .standard 0 bytes es)
    (hlen : bytes.length ≤ memorySize) (hmem : msg.text ∈ lines es) : msg.Plain pictures := by
  obtain ⟨e, he, hblock⟩ := List.mem_flatMap.1 hmem
  obtain ⟨k, haddress, hheads⟩ := h.exists_heads he
  have hk : k < bytes.length := by
    by_contra hge
    rw [List.drop_eq_nil_of_le (by omega)] at hheads
    cases hheads
  have haddress : e.address < 256 := by
    rw [haddress, Nat.zero_add]
    exact hk.trans_le hlen
  split at hblock
  · rcases List.mem_pair.1 hblock with htext | htext
    · exact plain_label (by omega) htext
    · exact plain_line hheads (by omega) htext
  · exact plain_line hheads (by omega) (List.mem_singleton.1 hblock)

end Listing

/-! ### The lines of a dump -/

/-- **The lines that show registers and flags are plain.** -/
theorem Session.plain_of_mem_dump {pictures : String → Prop} {s : Machine} {msg : Message}
    (hpc : s.pc < 1000) (hmem : msg.text ∈ dump s) : msg.Plain pictures := by
  rcases List.mem_append.1 hmem with hregister | hflags
  · obtain ⟨⟨value, i⟩, hi, htext⟩ := List.mem_map.1 hregister
    obtain ⟨-, hlt, hvalue⟩ := List.mem_zipIdx hi
    obtain ⟨b, -, hb⟩ := List.mem_map.1 (hvalue ▸ List.getElem_mem _)
    have hi : i < 100 := by
      rw [List.length_map, Vector.length_toList, Nat.zero_add] at hlt
      exact hlt.trans (by decide)
    have hvalue : Text.Short 3 (toString value) := hb ▸ Text.short_byte b
    have hname : Text.Short (1 + max 2 2) ("R" ++ Text.padRight 2 (toString i)) :=
      Text.Short.append (by simp [Text.Short])
        ((Text.short_toString (by omega) (by omega)).padRight 2)
    have hequals : Text.Short 3 " = " := by simp [Text.Short]
    exact Message.plain_of_short htext.symm
      (((hname.append hequals).append (hvalue.padLeft 3)).mono (by decide))
  · have hpc := (show Text.Short 5 "pc = " by simp [Text.Short]).append
      (Text.short_toString (m := 3) hpc (by omega))
    have hcmp := (show Text.Short 8 "  cmp = " by simp [Text.Short]).append
      (Text.short_byte s.difference)
    have hborrow : Text.Short 5 (if s.borrow then "True" else "False") := by
      split <;> simp [Text.Short]
    have hunderflow := (show Text.Short 14 "  underflow = " by simp [Text.Short]).append hborrow
    have hline := ((hpc.append hcmp).append hunderflow).mono (n := Console.width) (by decide)
    simp only [← String.append_assoc] at hline
    exact Message.plain_of_short (List.mem_singleton.1 hflags) hline

end Asm256
