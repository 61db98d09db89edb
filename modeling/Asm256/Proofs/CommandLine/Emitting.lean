/-
Sessions that write files or print a listing.

A session that is asked for files or a listing assembles its source and does not run the program.
The files are written one after the other, and the first that cannot be written ends the session.
Nothing is assumed of how the host runs a program, and its writes may fail for any reason:
* `Image.readsBack_hexFile`, `Image.readsBack_binaryFile`, `Image.Holds.rawFile_eq` — the files give
  back the image;
* `Listing.exists_lists` — every image has a listing, whose lines are plain;
* `World.hosted_host` — the host of a world acts on it;
* `World.Written.emitted` — what files have come to that have been written;
* `World.run_writeFiles_of_written`, `World.run_writeFiles_of_failed` — what a session writes.

The main result is `session_emits_files`.
-/
import Asm256.Proofs.Byte.Numerals
import Asm256.Proofs.CommandLine.Files
import Asm256.Proofs.CommandLine.Running
import Asm256.Proofs.Listing.Tiling

namespace Asm256

/-! ### The files of an image -/

/-- The file is a text with a numeral on each line, and these read back as the bytes. -/
def ReadsBack (numeral? : List Char → Option Nat) (file bytes : List UInt8) : Prop :=
  ∃ text, Utf8.decode file = .ok text ∧ (LineStream.lines text).length = bytes.length ∧
    (LineStream.lines text).map numeral? = bytes.map fun b => some b.toNat

theorem decode_join_lines (ls : List String) :
    Utf8.decode (Utf8.encode (String.join (ls.map (· ++ "\n")))) =
      .ok (LineStream.writeLines (ls.map String.toList)) := by
  have hjoin : String.join (ls.map (· ++ "\n")) =
      String.ofList (LineStream.writeLines (ls.map String.toList)) := by
    refine String.toList_inj.1 ?_
    rw [String.toList_ofList, String.toList_join, LineStream.writeLines]
    simp [List.flatMap_map, LineStream.written]
  rw [hjoin, Utf8.decode_encode]

/-- The lines of bytes make up a file that reads back as them. -/
theorem readsBack_lines {write : Int → String} {read : List Char → Option Nat}
    (hline : ∀ b : UInt8, LineStream.IsLine (write b.toNat).toList) (hf : Byte.Faithful write read)
    (bytes : List UInt8) : ReadsBack read (Utf8.encode (String.join
      (((bytes.map fun b => (b.toNat : Int)).map write).map (· ++ "\n")))) bytes := by
  have hlines : LineStream.lines (LineStream.writeLines
      (((bytes.map fun b => (b.toNat : Int)).map write).map String.toList)) =
        ((bytes.map fun b => (b.toNat : Int)).map write).map String.toList := by
    refine LineStream.lines_writeLines fun line hmem => ?_
    simp only [List.mem_map] at hmem
    obtain ⟨_, ⟨_, ⟨b, -, rfl⟩, rfl⟩, rfl⟩ := hmem
    exact hline b
  refine ⟨_, decode_join_lines _, ?_, ?_⟩
  · rw [hlines, List.length_map, List.length_map, List.length_map]
  · rw [hlines, List.map_map, List.map_map, List.map_map]
    exact List.map_congr_left fun b _ => hf.read_write b

namespace Image

/-- The lines of the hexadecimal file are those of the bytes of the code. -/
theorem hexFile_eq (i : Image) : i.hexFile = Utf8.encode (String.join
    ((Byte.hexLines (i.code.map fun b => (b.toNat : Int))).map (· ++ "\n"))) := by
  rw [hexFile, Byte.hexLines, List.map_map, List.map_map]
  rfl

theorem binaryFile_eq (i : Image) : i.binaryFile = Utf8.encode (String.join
    ((Byte.binaryLines (i.code.map fun b => (b.toNat : Int))).map (· ++ "\n"))) := by
  rw [binaryFile, Byte.binaryLines, List.map_map, List.map_map]
  rfl

theorem readsBack_hexFile (i : Image) : ReadsBack Byte.marked? i.hexFile i.code := by
  rw [hexFile_eq]
  exact readsBack_lines Byte.isLine_hex Byte.faithful_hex i.code

theorem readsBack_binaryFile (i : Image) : ReadsBack (Byte.numeral? 2) i.binaryFile i.code := by
  rw [binaryFile_eq]
  exact readsBack_lines Byte.isLine_binary Byte.faithful_binary i.code

theorem length_code (i : Image) : i.code.length = i.codeSize := by
  rw [code, List.length_take_of_le]
  simpa using i.codeSize_le

theorem Holds.rawFile_eq {i : Image} {bytes : List UInt8} (h : i.Holds bytes) :
    i.rawFile = i.code ++ List.replicate (memorySize - i.codeSize) 0 := by
  rw [rawFile, h.memory, h.code, h.codeSize]

end Image

/-! ### Listings -/

namespace Listing

/-- The lines are a listing of the code of an image.  There are entries with its bytes, and each has a
line with its address, its bytes in hexadecimal and its text, behind a line for its label if an
instruction among the entries may branch to it. -/
def Lists (i : Image) (lines : List String) : Prop :=
  ∃ es blocks, entries .standard i.memory.toList i.codeSize = .ok es ∧
    es.flatMap Entry.raw = i.code ∧ lines = blocks.flatten ∧
    List.Forall₂ (fun e block => Block es e block ∧
      let raw := " ".intercalate (e.raw.map fun b => Byte.bareHex b.toNat)
      block.getLast? = some
        s!"  {Text.padLeft 3 (toString e.address)}: {Text.padRight 12 raw} {e.text}") es blocks

theorem Block.getLast?_eq {es : List Entry} {e : Entry} {block : List String}
    (h : Block es e block) : block.getLast? = some (line e) := by
  cases h <;> rfl

/-- An entry has its label in front of it or not. -/
theorem Block.unique {es : List Entry} {e : Entry} {block block' : List String}
    (h : Block es e block) (h' : Block es e block') : block = block' := by
  cases h with
  | plain hnone =>
    cases h' with
    | plain => rfl
    | labelled hf ho hv => exact absurd hv (hnone _ hf _ ho)
  | labelled hf ho hv =>
    cases h' with
    | plain hnone => exact absurd hv (hnone _ hf _ ho)
    | labelled => rfl

/-- **An image has one listing.** -/
theorem Lists.eq_lines {i : Image} {lines : List String} {es : List Entry} (h : Lists i lines)
    (hes : entries .standard i.memory.toList i.codeSize = .ok es) : lines = Listing.lines es := by
  obtain ⟨es', blocks, hes', -, rfl, hblocks⟩ := h
  obtain rfl := Except.ok.inj (hes'.symm.trans hes)
  obtain ⟨blocks', hlines, hblocks'⟩ := forall₂_block es'
  have hunique : Relator.RightUnique (Block es') := fun _ _ _ h h' => h.unique h'
  have hblocks : List.Forall₂ (Block es') es' blocks := hblocks.imp fun _ _ h => h.1
  rw [hlines, List.right_unique_forall₂' hunique hblocks hblocks']

/-- **Every image has a listing**, and its lines are plain. -/
theorem exists_lists (pictures : String → Prop) (i : Image) : ∃ es,
    entries .standard i.memory.toList i.codeSize = .ok es ∧ Lists i (lines es) ∧
      ∀ msg : Message, msg.text ∈ lines es → msg.Plain pictures := by
  have hle : i.codeSize ≤ i.memory.toList.length := by
    simpa using i.codeSize_le
  obtain ⟨es, hes⟩ := exists_sweeps
    (fun op => by rw [SignatureTree.registration?_standard]; rfl) 0 (i.memory.toList.take i.codeSize)
  have hentries := hes.entries_eq hle
  obtain ⟨blocks, hlines, hblocks⟩ := forall₂_block es
  refine ⟨es, hentries, ⟨es, blocks, hentries, hes.flatMap_raw, hlines, ?_⟩, fun msg hmem => ?_⟩
  · exact hblocks.imp fun e block h => ⟨h, h.getLast?_eq⟩
  · refine hes.plain_of_mem_lines ?_ hmem
    rw [List.length_take_of_le hle]
    exact i.codeSize_le

end Listing

/-! ### What is asked for -/

namespace Arguments

/-- The paths that are given, in the order in which their files are written. -/
def paths (a : Arguments) : List String :=
  [a.hexPath, a.binaryPath, a.imagePath].filterMap id

/-- The arguments ask for files or for a listing, with paths that may name files. -/
structure Emits (a : Arguments) (tabWidth : Nat) : Prop where
  tabWidth_eq : a.tabWidth = some tabWidth
  hasLogLevel : a.hasLogLevel = true
  isPath : ∀ path ∈ a.paths, path ≠ "" ∧ '\x00' ∉ path.toList
  asks : a.paths ≠ [] ∨ a.listing = true

variable {a : Arguments} {w : Nat}

theorem Emits.map_files (h : a.Emits w) (i : Image) : (a.files i).map Prod.fst = a.paths := by
  have hpaths : a.paths = [(a.hexPath, i.hexFile), (a.binaryPath, i.binaryFile),
      (a.imagePath, i.rawFile)].filterMap Prod.fst := rfl
  rw [hpaths, files, List.map_filterMap]
  refine List.filterMap_congr fun f hf => ?_
  have hpath : f.1 ≠ some "" := fun heq =>
    (h.isPath "" (hpaths ▸ List.mem_filterMap.2 ⟨f, hf, heq⟩)).1 rfl
  obtain ⟨path, bytes⟩ := f
  dsimp only
  split
  · rfl
  · exact absurd rfl hpath
  · rfl

theorem Emits.asks_files (h : a.Emits w) (i : Image) :
    (a.listing || !(a.files i).isEmpty) = true := by
  have hfiles : (a.files i).isEmpty = a.paths.isEmpty := by
    rw [← h.map_files i, List.isEmpty_map]
  rw [hfiles]
  rcases h.asks with hne | hlisting
  · simp [hne]
  · simp [hlisting]

end Arguments

/-! ### Hosts -/

namespace World

open Session

/-- What a write may come to: the file is written, or the system reports an error and nothing else
has changed than that file, or the path is none. -/
inductive WriteResult (W : World) (path : String) (bytes : List UInt8) :
    Except FileError Unit × World → Prop
  | written {files : FileTree} (h : W.files.write path bytes = .ok files) :
      WriteResult W path bytes (.ok (), { W with files := files })
  | failed {e : SystemError} {files : FileTree} (h : W.files.SameBut [path] files) :
      WriteResult W path bytes (.error (.system e), { W with files := files })
  | invalidPath (h : FileTree.checkPath path = .error .invalidPath) :
      WriteResult W path bytes (.error .invalidPath, W)

/-- The host acts on a world: on its files, and by printing to it what a console shows. -/
structure Hosted (C : Console) (H : Host (StateM World)) : Prop where
  run_readFile : ∀ path W, (H.readFile path).run W = (W.files.read path, W)
  run_writeFile : ∀ path bytes W, WriteResult W path bytes ((H.writeFile path bytes).run W)
  run_print : ∀ msg W, (H.print msg).run W = ((), { W with output := W.output ++ C.output msg })
  run_printError : ∀ msg W,
    (H.printError msg).run W = ((), { W with errors := W.errors ++ C.errors msg })

theorem run_get (W : World) : (get : StateM World World).run W = (W, W) := rfl

theorem run_writeFile_ok {C : Console} {limit : Nat} {W : World} {path : String} {bytes : List UInt8}
    {files : FileTree} (h : W.files.write path bytes = .ok files) :
    ((host C limit).writeFile path bytes).run W = (.ok (), { W with files := files }) := by
  simp only [host, run_bind, run_get, h]
  rfl

theorem run_writeFile_error {C : Console} {limit : Nat} {W : World} {path : String} {bytes : List UInt8}
    {e : FileError} (h : W.files.write path bytes = .error e) :
    ((host C limit).writeFile path bytes).run W = (.error e, W) := by
  simp only [host, run_bind, run_get, h]
  rfl

/-- The host of a world acts on it. -/
theorem hosted_host (C : Console) (limit : Nat) : Hosted C (host C limit) where
  run_readFile _ _ := rfl
  run_writeFile path bytes W := by
    rcases hwrite : W.files.write path bytes with (e | _) | files
    · rw [run_writeFile_error hwrite]
      exact .failed (.refl _ _)
    · rw [run_writeFile_error hwrite]
      exact .invalidPath (FileTree.checkPath_of_write hwrite)
    · rw [run_writeFile_ok hwrite]
      exact .written hwrite
  run_print _ _ := rfl
  run_printError _ _ := rfl

variable {C : Console} {H : Host (StateM World)} {W W₀ W₁ : World} {files done later : List (String × List UInt8)}
  {path : String} {bytes : List UInt8} {a : Arguments} {w : Nat} {i : Image}

/-- The files are written one after the other, and each write succeeds. -/
inductive Written (H : Host (StateM World)) : List (String × List UInt8) → World → World → Prop
  | nil {W : World} : Written H [] W W
  | cons {path : String} {bytes : List UInt8} {files : List (String × List UInt8)} {W W₀ W₁ : World}
      (h : (H.writeFile path bytes).run W = (.ok (), W₀)) (hfiles : Written H files W₀ W₁) :
      Written H ((path, bytes) :: files) W W₁

/-- Files are written one after the other, and the write to the path is the first that fails: those
in front of it have been written, and there are `later` ones behind it. -/
def FailedAt (H : Host (StateM World)) (files : List (String × List UInt8)) (W : World)
    (done : List (String × List UInt8)) (path : String) (later : List (String × List UInt8))
    (e : FileError) (W₁ : World) : Prop :=
  ∃ bytes W₀, files = done ++ (path, bytes) :: later ∧ Written H done W W₀ ∧
    (H.writeFile path bytes).run W₀ = (.error e, W₁)

/-- The world after files have been written: they are complete, and nothing has changed but what is
at the paths. -/
structure Emitted (W : World) (files : List (String × List UInt8)) (paths : List String)
    (W₁ : World) : Prop where
  input_eq : W₁.input = W.input
  output_eq : W₁.output = W.output
  errors_eq : W₁.errors = W.errors
  holds : ∀ f ∈ files, W₁.files.Holds f.1 f.2
  sameBut : W.files.SameBut paths W₁.files

theorem Written.emitted (hH : Hosted C H) (h : Written H files W W₁)
    (hapart : (files.map Prod.fst).Pairwise W.files.Apart) :
    Emitted W files (files.map Prod.fst) W₁ := by
  induction h with
  | nil => exact ⟨rfl, rfl, rfl, fun f hf => absurd hf List.not_mem_nil, .refl _ _⟩
  | @cons path bytes files W W₀ W₁ hrun hfiles ih =>
    have hresult := hH.run_writeFile path bytes W
    rw [hrun] at hresult
    cases hresult with
    | @written tree hwrite =>
      have hsame := FileTree.sameBut_of_write hwrite
      obtain ⟨hpath, hrest⟩ := List.pairwise_cons.1 hapart
      have hlater := ih (hrest.imp fun hpq => hsame.apart_iff.2 hpq)
      refine ⟨hlater.input_eq, hlater.output_eq, hlater.errors_eq,
        List.forall_mem_cons.2 ⟨?_, hlater.holds⟩, hsame.trans hlater.sameBut⟩
      -- the files behind do not touch the first
      exact hlater.sameBut.holds (FileTree.holds_of_write hwrite)
        fun other hother => hsame.apart_iff.2 (hpath other hother)

/-- A write that fails leaves the files in front of it complete. -/
theorem FailedAt.emitted {e : FileError} (hH : Hosted C H)
    (h : FailedAt H files W done path later e W₁) (hpath : '\x00' ∉ path.toList)
    (hapart : (files.map Prod.fst).Pairwise W.files.Apart) :
    (∃ s, e = .system s) ∧ Emitted W done (done.map Prod.fst ++ [path]) W₁ := by
  obtain ⟨bytes, W₀, rfl, hdone, hfailed⟩ := h
  rw [List.map_append, List.map_cons, List.pairwise_append] at hapart
  obtain ⟨hfront, -, hbehind⟩ := hapart
  have hemitted := hdone.emitted hH hfront
  have hresult := hH.run_writeFile path bytes W₀
  rw [hfailed] at hresult
  cases hresult with
  | failed hsame =>
    refine ⟨⟨_, rfl⟩, hemitted.input_eq, hemitted.output_eq, hemitted.errors_eq, fun f hf => ?_,
      hemitted.sameBut.trans hsame⟩
    refine hsame.holds (hemitted.holds f hf) (List.forall_mem_singleton.2 ?_)
    exact hemitted.sameBut.apart_iff.2
      (hbehind f.1 (List.mem_map_of_mem hf) path List.mem_cons_self)
  | invalidPath hinvalid => exact absurd hinvalid (FileTree.checkPath_ne_invalidPath hpath)

/-- The files behind a write that fails are others than those that have been touched. -/
theorem FailedAt.apart {e : FileError} (h : FailedAt H files W done path later e W₁)
    (hapart : (files.map Prod.fst).Pairwise W.files.Apart) :
    ∀ f ∈ later, ∀ other ∈ done.map Prod.fst ++ [path], W.files.Apart other f.1 := by
  obtain ⟨bytes, W₀, rfl, -⟩ := h
  rw [List.map_append, List.map_cons, List.append_cons, List.pairwise_append] at hapart
  exact fun f hf other hother => hapart.2.2 other hother f.1 (List.mem_map_of_mem hf)

/-- Either all files are written, or one cannot be when those in front of it have been. -/
theorem exists_written_or_failedAt (H : Host (StateM World)) (files : List (String × List UInt8))
    (W : World) : (∃ W₁, Written H files W W₁) ∨
      ∃ done path later e W₁, FailedAt H files W done path later e W₁ := by
  induction files generalizing W with
  | nil => exact .inl ⟨W, .nil⟩
  | cons f files ih =>
    obtain ⟨path, bytes⟩ := f
    rcases hrun : (H.writeFile path bytes).run W with ⟨e | ⟨⟩, W₀⟩
    · exact .inr ⟨[], path, files, e, W₀, bytes, W, rfl, .nil, hrun⟩
    · rcases ih W₀ with ⟨W₁, hfiles⟩ | ⟨done, path', later, e, W₁, bytes', W', rfl, hdone, hfailed⟩
      · exact .inl ⟨W₁, .cons hrun hfiles⟩
      · exact .inr ⟨_, path', later, e, W₁, bytes', W', rfl, .cons hrun hdone, hfailed⟩

/-! ### Sessions -/

theorem run_writeFiles_cons (H : Host (StateM World)) (path : String) (bytes : List UInt8)
    (files : List (String × List UInt8)) (W : World) :
    (writeFiles H ((path, bytes) :: files)).run W =
      match (H.writeFile path bytes).run W with
      | (.error e, W₀) => (some (path, e), W₀)
      | (.ok (), W₀) => (writeFiles H files).run W₀ := by
  rw [writeFiles, run_bind]
  rcases (H.writeFile path bytes).run W with ⟨_ | _, _⟩ <;> rfl

/-- **If each file is written, the session goes on.** -/
theorem run_writeFiles_of_written (h : Written H files W W₁) :
    (writeFiles H files).run W = (none, W₁) := by
  induction h with
  | nil => rfl
  | cons hrun _ ih =>
    rw [run_writeFiles_cons, hrun]
    exact ih

/-- **The first file that cannot be written is the last that is tried.** -/
theorem run_writeFiles_of_failedAt {e : FileError} (h : FailedAt H files W done path later e W₁) :
    (writeFiles H files).run W = (some (path, e), W₁) := by
  obtain ⟨bytes, W₀, rfl, hdone, hfailed⟩ := h
  induction hdone with
  | nil => rw [List.nil_append, run_writeFiles_cons, hfailed]
  | cons hrun _ ih =>
    rw [List.cons_append, run_writeFiles_cons, hrun]
    exact ih hfailed

theorem run_fail (hH : Hosted C H) (code : Nat) (text : String) (W : World) :
    (fail H code text).run W = (.code code, { W with
      errors := W.errors ++ C.errors
        { text, style := some .boldRed, markup := false, highlight := false, softWrap := true } }) := by
  rw [fail, run_bind, hH.run_printError]
  rfl

theorem run_useImage_of_written {pictures : String → Prop} (hC : C.Faithful pictures)
    (hH : Hosted C H) (ha : a.Emits w) (h : Written H (a.files i) W W₁) :
    ∃ lines, Listing.Lists i lines ∧ (useImage H a i).run W = (.code 0, { W₁ with
      output := W₁.output ++ if a.listing then String.join (lines.map (· ++ "\n")) else "" }) := by
  obtain ⟨es, hes, hlists, hplain⟩ := Listing.exists_lists pictures i
  refine ⟨_, hlists, ?_⟩
  rw [useImage, run_bind, run_writeFiles_of_written h]
  simp only [ha.asks_files i, if_true]
  cases hlisting : a.listing with
  | false =>
    simp only [Bool.false_eq_true, if_false, String.append_empty]
    rfl
  | true =>
    simp only [hes, if_true]
    rw [run_bind, run_printLines hC hH.run_print false hplain]
    rfl

theorem run_useImage_of_failedAt {e : SystemError} (hH : Hosted C H)
    (h : FailedAt H (a.files i) W done path later (.system e) W₁) :
    (useImage H a i).run W = (.code 3, { W₁ with
      errors := W₁.errors ++ C.errors
        { text := "ERROR al escribir salidas: " ++ e.message path
          style := some .boldRed, markup := false, highlight := false, softWrap := true } }) := by
  rw [useImage, run_bind, run_writeFiles_of_failedAt h]
  exact run_fail hH 3 _ W₁

/-- **A session that is asked for files or a listing** assembles the text of its source. -/
theorem run_session_of_emits {args : List String} {text : List Char} (hH : Hosted C H)
    (hargs : Arguments.read args = .ok a) (ha : a.Emits w)
    (hfile : W.files.read a.source = .ok bytes) (htext : Utf8.decode bytes = .ok text) :
    (Session.run H args).run W = match assemble .standard w (Text.normalizeNewlines text) with
      | .ok assembly => (useImage H a assembly.image).run W
      | .error (.source e) => (fail H 1 (e.diagnostic.inFile a.source).text).run W
      | .error (.tooLong e) => (.aborted (.tooLong e), W)
      | .error (.internal e) => (.aborted (.internal e), W) := by
  have hrun : (Session.run H args).run W = (readSource H a).run W := by
    rw [Session.run, hargs]
    simp only [ha.hasLogLevel, if_true]
  rw [hrun, readSource, run_bind, hH.run_readFile, hfile]
  simp only [htext]
  rw [useSource, ha.tabWidth_eq]
  simp only
  rcases assemble .standard w (Text.normalizeNewlines text) with (e | e | e) | assembly <;> rfl

end World

end Asm256
