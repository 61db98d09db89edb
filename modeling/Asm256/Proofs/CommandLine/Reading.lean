/-
Arguments that ask for a run.

Sessions that only run a program are asked for no files and no listing (`Arguments.RunOnly`).  There
are arguments for them with any tab width, which is written in decimal digits:
* `Text.integer?_of_numeral` — decimal digits are read as the number that they denote;
* `Arguments.classify_numeral` — they are no option;
* `Arguments.read_tabWidth` — the arguments for a run.
-/
import Asm256.CommandLine.Session
import Asm256.Proofs.Listing.Written
import Mathlib

namespace Asm256

/-! ### Numbers as they are typed -/

namespace Text

variable {c : Char} {cs : List Char} {s : String} {n : Nat}

theorem digitValue?_of_isDigit (h : Decimal.isDigit c) : digitValue? c = some (c.toNat - 0x30) := by
  have hc := Decimal.isDigit_iff.1 h
  rw [digitValue?, digitZeros, List.find?_cons_of_pos (by simp; omega)]
  rfl

theorem isPadding_of_isDigit (h : Decimal.isDigit c) : isPadding c = false := by
  have hc := Decimal.isDigit_iff.1 h
  rw [isPadding, isBlank_eq_false (by omega) (by omega), Bool.false_and]

theorem dropWhile_isPadding (h : ∀ c ∈ cs, Decimal.isDigit c) : cs.dropWhile isPadding = cs := by
  cases cs with
  | nil => rfl
  | cons c cs =>
    rw [List.dropWhile_cons_of_neg]
    rw [isPadding_of_isDigit (h c List.mem_cons_self)]
    decide

/-- Digits are read one after the other. -/
theorem naturalFrom?_of_isDigit (h : ∀ c ∈ cs, Decimal.isDigit c) (value : Nat)
    {afterDigit : Bool} (hne : afterDigit = true ∨ cs ≠ []) : naturalFrom? value afterDigit cs =
      some (cs.foldl (fun n c => 10 * n + (c.toNat - 0x30)) value) := by
  induction cs generalizing value afterDigit with
  | nil =>
    obtain rfl : afterDigit = true := hne.resolve_right fun hnil => hnil rfl
    rfl
  | cons c cs ih =>
    have hc := h c List.mem_cons_self
    have hunderscore : c ≠ '_' := by
      rintro rfl
      exact absurd hc (by decide)
    rw [naturalFrom?, if_neg hunderscore, digitValue?_of_isDigit hc]
    exact ih (fun d hd => h d (List.mem_cons_of_mem _ hd)) _ (.inl rfl)

/-- **Decimal digits are read as the number that they denote.** -/
theorem integer?_of_numeral (h : Item.Numeral s.toList n) : integer? s = some (n : Int) := by
  have hreverse : ∀ c ∈ s.toList.reverse, Decimal.isDigit c := fun c hc =>
    h.isDigit c (List.mem_reverse.1 hc)
  have hcount : ¬ Decimal.maxDigits < s.toList.countP (· != '_') :=
    Nat.not_lt.2 (List.countP_le_length.trans h.length_le)
  have hnatural : natural? s.toList = some n := by
    rw [natural?, if_neg hcount, naturalFrom?_of_isDigit h.isDigit 0 (.inr h.ne_nil)]
    exact congrArg some h.value_eq
  rw [integer?, dropWhile_isPadding h.isDigit, dropWhile_isPadding hreverse, List.reverse_reverse]
  split
  · next cs hs => exact absurd (h.isDigit '-' (hs ▸ List.mem_cons_self)) (by decide)
  · next cs hs => exact absurd (h.isDigit '+' (hs ▸ List.mem_cons_self)) (by decide)
  · rw [hnatural]
    rfl

end Text

/-! ### Arguments -/

namespace Arguments

/-- The arguments ask for no file and no listing, so that the program is run. -/
structure RunOnly (a : Arguments) (tabWidth : Nat) : Prop where
  tabWidth_eq : a.tabWidth = some tabWidth
  /-- Without one the session ends before it opens the source. -/
  hasLogLevel : a.hasLogLevel = true
  noFiles : ∀ path ∈ [a.hexPath, a.binaryPath, a.imagePath], path = none ∨ path = some ""
  noListing : a.listing = false

theorem RunOnly.files_eq {a : Arguments} {w : Nat} (h : a.RunOnly w) (i : Image) :
    a.files i = [] := by
  refine List.filterMap_eq_nil_iff.2 ?_
  rintro ⟨path, bytes⟩ hmem
  have hpath : path ∈ [a.hexPath, a.binaryPath, a.imagePath] :=
    List.mem_map_of_mem (f := Prod.fst) hmem
  rcases h.noFiles path hpath with rfl | rfl <;> rfl

/-- **Decimal digits are no option.** -/
theorem classify_numeral {s : String} {n : Nat} (h : Item.Numeral s.toList n) :
    classify s = .ok (.plain s) :=
  if_pos fun hhead => absurd (h.isDigit '-' (List.mem_of_head? hhead)) (by decide)

theorem ne_separator {s : String} {n : Nat} (h : Item.Numeral s.toList n) : s ≠ "--" := by
  rintro rfl
  exact absurd (h.isDigit '-' (by decide)) (by decide)

theorem read_eq {args : List String} {as : List Argument} {d : Draft}
    (hclassify : classifyAll args = .ok as) (huse : ({} : Draft).use as = .ok d)
    (hsource : d.hasSource = true) (hsuperfluous : d.superfluous = false) :
    read args = .ok d.settings := by
  simp only [read, hclassify, huse, hsource, hsuperfluous, bind, Except.bind]
  rfl

/-- **Arguments for a session that only runs a program**: with any tab width, any source, and with or
without the registers at the end. -/
theorem read_tabWidth {w : Nat} (hw : 1 ≤ w) (hw' : w ≤ 255) (source : String) (dump : Bool) :
    read ((if dump then ["--dump"] else []) ++ ["-t", toString w, "--", source]) =
      .ok { source := source, tabWidth := some w, dump := dump } := by
  have hnumeral := Item.numeral_toString (Nat.lt_succ_of_le hw')
  have hassign : ∀ d : Draft, d.assign .tabWidth (toString w) =
      .ok { d with settings := { d.settings with tabWidth := some w } } := fun d => by
    simp only [Draft.assign, Text.integer?_of_numeral hnumeral]
    rw [if_pos (by omega)]
    rfl
  have hwidth : classify "-t" = .ok (.option .tabWidth false none) := by decide +kernel
  have hdump : classify "--dump" = .ok (.option .dump true none) := by decide +kernel
  have hrest : classifyAll ["-t", toString w, "--", source] = .ok
      [.option .tabWidth false none, .plain (toString w), .separator, .plain source] := by
    rw [classifyAll, if_neg (by decide), hwidth, classifyAll, if_neg (ne_separator hnumeral),
      classify_numeral hnumeral, classifyAll, if_pos rfl]
    rfl
  have huse : ∀ d : Draft, d.use
      [.option .tabWidth false none, .plain (toString w), .separator, .plain source] =
      .ok (({ d with settings := { d.settings with tabWidth := some w } } : Draft).plain source) :=
    fun d => by
      rw [Draft.use]
      simp only [Setting.takesValue, if_true, hassign, bind, Except.bind]
      rfl
  cases dump with
  | false => exact read_eq hrest (huse {}) rfl rfl
  | true =>
    have hall : classifyAll ["--dump", "-t", toString w, "--", source] = .ok
        [.option .dump true none, .option .tabWidth false none, .plain (toString w), .separator,
          .plain source] := by
      rw [classifyAll, if_neg (by decide), hdump, hrest]
      rfl
    have hswitch : ∀ setting attached as, ({} : Draft).use
        (.option .dump true none :: .option setting false attached :: as) =
        ({ settings := { source := "", dump := true } } : Draft).use
          (.option setting false attached :: as) := fun _ _ _ => by
      rw [Draft.use]
      · rfl
      · simp
    exact read_eq hall ((hswitch _ _ _).trans (huse _)) rfl rfl

theorem runOnly_tabWidth (w : Nat) (source : String) (dump : Bool) :
    RunOnly { source := source, tabWidth := some w, dump := dump } w :=
  ⟨rfl, rfl, by simp, rfl⟩

end Arguments

end Asm256
