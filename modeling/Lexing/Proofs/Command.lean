import Lexing.Proofs.Arguments
import Lexing.Proofs.ControlSequence
import Lexing.Proofs.Listing
import Lexing.Proofs.Printing
import Lexing.Proofs.ScanFiles

/-!
# What a command line comes to

A command line that asks for a listing shows what its files are by themselves: the listings of those
that can be tokenized on one stream, the diagnostics of the others on the other. One file that cannot
be decoded leaves nothing of the others.
-/

namespace Lexing.CommandLine

open Text

/-- The JSON of the tokens of one file. -/
def listingObject (listing : Listing) : Json :=
  .object [("file", .text listing.file.toList), ("tokens", .array (listing.tokens.map Listing.entry))]

/-- The listing of one file as it is written. Only the heading can lose anything on the way. -/
def shownListing (format : ListingFormat) (headed : Bool) (listing : Listing) : List Char :=
  match format with
  | .text =>
    (if headed then withoutControlSequences listing.heading ++ ['\n'] else []) ++
      listing.tokens.flatMap fun token => Listing.line token ++ ['\n']
  | .json => (listingObject listing).write Json.oneItemPerLine 1

/-- All listings as they are written: one behind the other, or as one array. -/
def shownListings (format : ListingFormat) (headed : Bool) (listings : List Listing) : String :=
  match format with
  | .text => String.ofList (listings.flatMap (shownListing .text headed))
  | .json => String.ofList ((Json.array (listings.map listingObject)).indented ++ ['\n'])

def errorCount (n : Nat) : String :=
  if n = 1 then "1 error" else s!"{n} errors"

/-- The diagnostics as they are written, less control sequences, with a blank line behind each of
them and their number at the end. Without diagnostics nothing is written. -/
def shownReport (diagnostics : List Diagnostic) : String :=
  if diagnostics = [] then ""
  else
    String.ofList ((diagnostics.flatMap fun d =>
      withoutControlSequences d.render.toList ++ ['\n', '\n']) ++
        (errorCount diagnostics.length).toList ++ ['\n'])

section Echoes

theorem echo_of_not_mem {message : List Char} (h : '\x1b' ∉ message) :
    echo message = String.ofList (message ++ ['\n']) := by
  rw [echo, withoutControlSequences_of_not_mem h]

theorem document_eq (listings : List Listing) :
    Listing.document listings = .array (listings.map listingObject) := rfl

theorem escape_not_mem_indented (document : Json) : '\x1b' ∉ document.indented :=
  (asciiLines_indented document).not_mem (by decide)

theorem join_echo_messages (format : ListingFormat) (headed : Bool) (listings : List Listing) :
    String.join ((Listing.messages format headed listings).map echo) =
      shownListings format headed listings := by
  have hline (token : Token) : echo (Listing.line token) =
      String.ofList (Listing.line token ++ ['\n']) :=
    echo_of_not_mem (Over.not_mem (printed_line token) (by decide))
  have hheading (listing : Listing) : echo listing.heading =
      String.ofList (withoutControlSequences listing.heading ++ ['\n']) := rfl
  apply String.toList_inj.mp
  cases format with
  | text =>
    rw [String.toList_join, shownListings, String.toList_ofList, Listing.messages, List.flatMap_map,
      List.flatMap_assoc]
    congr 1
    funext listing
    cases headed with
    | true => simp [Listing.lines, shownListing, hline, hheading, List.flatMap_map]
    | false => simp [Listing.lines, shownListing, hline, List.flatMap_map]
  | json =>
    rw [Listing.messages, document_eq, shownListings, List.map_singleton,
      echo_of_not_mem (escape_not_mem_indented _), String.toList_join]
    simp

private theorem withoutControlSequences_paragraphs (texts : List (List Char)) (last : List Char) :
    withoutControlSequences ((texts.flatMap fun text => text ++ ['\n', '\n']) ++ last) =
      (texts.flatMap fun text => withoutControlSequences text ++ ['\n', '\n']) ++
        withoutControlSequences last := by
  induction texts with
  | nil => rfl
  | cons text texts ih =>
    rw [List.flatMap_cons, List.flatMap_cons, List.append_assoc, List.append_assoc,
      List.cons_append, List.singleton_append, withoutControlSequences_lineFeed,
      withoutControlSequences_cons (by decide), ih]
    simp

private theorem escape_not_mem_errorCount (n : Nat) : '\x1b' ∉ (errorCount n).toList := by
  have hdigits : '\x1b' ∉ Nat.toDigits 10 n :=
    (ascii_toDigits (by decide) n).not_mem (by decide)
  unfold errorCount
  split
  · decide
  · have hsplit : (s!"{n} errors").toList = Nat.toDigits 10 n ++ " errors".toList := by
      simp [toString, Nat.repr]
    rw [hsplit, List.mem_append, not_or]
    exact ⟨hdigits, by decide⟩

theorem echo_report (collector : Collector) (h : collector.diagnostics ≠ []) :
    echo collector.report.toList = shownReport collector.diagnostics := by
  have hcount : collector.summary = errorCount collector.diagnostics.length := rfl
  have hreport : collector.report.toList =
      ((collector.diagnostics.map fun d => d.render.toList).flatMap fun text =>
        text ++ ['\n', '\n']) ++ (errorCount collector.diagnostics.length).toList := by
    rw [Collector.report, hcount, String.toList_intercalate, List.map_append, List.map_singleton,
      intercalate_concat]
    simp [List.flatMap_map, List.map_flatMap, List.flatMap_assoc]
  rw [echo, hreport, withoutControlSequences_paragraphs,
    withoutControlSequences_of_not_mem (escape_not_mem_errorCount _), List.flatMap_map, shownReport,
    if_neg h]

end Echoes

section Requests

variable {request : Request} {entry : String → Entry} {env : Environment} {base : Options}

/-- The options of a request are the base ones, over which its flags win. -/
structure Request.Overrides (request : Request) (base options : Options) : Prop where
  loneCr : options.loneCr = (base.loneCr && !request.strictCr)
  intBits : (options.intBits : Int) = request.intBits.getD base.intBits

theorem Request.Valid.exists_options (hvalid : request.Valid entry)
    (hbase : env.options "<input>" = .ok base) :
    ∃ options, request.options env = .ok options ∧ request.Overrides base options := by
  unfold Request.options
  rw [hbase]
  cases hbits : request.intBits with
  | none => exact ⟨_, rfl, rfl, by simp [hbits]⟩
  | some bits =>
    obtain ⟨hlow, hhigh⟩ := hvalid.intBits_mem bits hbits
    have hrange : minIntBits ≤ bits.toNat ∧ bits.toNat ≤ maxIntBits := by omega
    refine ⟨_, dif_pos hrange, rfl, ?_⟩
    rw [hbits, Option.getD_some]
    exact Int.toNat_of_nonneg (by omega)

theorem Request.contents_eq {bytes : String → List UInt8}
    (h : ∀ file ∈ request.files, entry file = .file (bytes file)) :
    request.contents entry = request.files.map fun file => (shownPath file, bytes file) := by
  rw [Request.contents, ← List.filterMap_eq_map]
  apply List.filterMap_congr
  intro file hfile
  rw [h file hfile]
  rfl

end Requests

section Runs

variable {request : Request} {env : Environment} {options : Options}

theorem Request.finish_eq (request : Request) (progress : Progress) : request.finish progress =
    { exitCode := if progress.collector.diagnostics = [] then 0 else 1
      stdout := shownListings request.format (decide (1 < request.files.length)) progress.listings
      stderr := shownReport progress.collector.diagnostics } := by
  rw [Request.finish, join_echo_messages, Collector.isEmpty]
  by_cases hnone : progress.collector.diagnostics = []
  · rw [hnone]
    rfl
  · have hsome : progress.collector.diagnostics.isEmpty = false :=
      List.isEmpty_eq_false_iff.mpr hnone
    have hstderr : ((Failure.lexicalReport progress.collector.report).outcome
        request.verbose).stderr = shownReport progress.collector.diagnostics := by
      rw [← echo_report _ hnone]
      exact String.append_empty
    rw [hsome, if_neg hnone, if_neg Bool.false_ne_true, hstderr]
    rfl

/-- A run that gets through its files shows what they have by themselves. -/
theorem Request.run_of_scanFiles (hoptions : request.options env = .ok options)
    {contents : List (String × List UInt8)} {scanned : List SourceFile}
    (h : scanFiles options request.noEol {} contents =
      (Progress.after options request.noEol {} scanned, none)) :
    let diagnostics := scanned.filterMap (SourceFile.diagnostic? options)
    request.run env contents =
      { exitCode := if diagnostics = [] then 0 else 1
        stdout := shownListings request.format (decide (1 < request.files.length))
          (scanned.filterMap (SourceFile.listing? options request.noEol))
        stderr := logText request.verbose (scanned.flatMap (SourceFile.log options)) ++
          shownReport diagnostics } := by
  rw [Request.run, hoptions]
  dsimp only
  rw [h]
  dsimp only
  rw [Request.finish_eq]
  rfl

theorem Request.run_of_undecodable (hoptions : request.options env = .ok options)
    {contents : List (String × List UInt8)} {progress : Progress} {fault : Utf8.Fault}
    (h : scanFiles options request.noEol {} contents = (progress, some fault)) :
    request.run env contents =
      { exitCode := 2
        stdout := ""
        stderr := logText request.verbose progress.log ++
          echo (Failure.undecodable fault).message.toList } := by
  rw [Request.run, hoptions]
  dsimp only
  rw [h]
  simp only [Failure.outcome, Failure.exitCode, Failure.trace, String.append_empty]

end Runs

section Parts

variable {listing : Listing} {listings : List Listing} {d : Diagnostic} {diagnostics : List Diagnostic}

private theorem infix_flatMap {α β : Type} (f : α → List β) {a : α} {items : List α}
    (h : a ∈ items) : f a <:+: items.flatMap f := by
  rw [List.flatMap_def]
  exact List.infix_of_mem_flatten (List.mem_map_of_mem h)

theorem shownListing_within (format : ListingFormat) (headed : Bool) (h : listing ∈ listings) :
    shownListing format headed listing <:+: (shownListings format headed listings).toList := by
  cases format with
  | text =>
    rw [shownListings, String.toList_ofList]
    exact infix_flatMap _ h
  | json =>
    rw [shownListings, String.toList_ofList]
    have hitem := List.mem_map_of_mem (f := listingObject) h
    exact (Json.write_within_array Json.oneItemPerLine 0 hitem).trans
      (List.prefix_append _ _).isInfix

theorem render_within (h : d ∈ diagnostics) :
    withoutControlSequences d.render.toList <:+: (shownReport diagnostics).toList := by
  have hreported := infix_flatMap
    (fun d : Diagnostic => withoutControlSequences d.render.toList ++ ['\n', '\n']) h
  rw [shownReport, if_neg (List.ne_nil_of_mem h), String.toList_ofList, List.append_assoc]
  exact ((List.prefix_append _ _).isInfix.trans hreported).trans (List.prefix_append _ _).isInfix

end Parts

section CommandLines

variable {request : Request} {env : Environment} {entry : String → Entry} {base : Options}

theorem run_eq_of_askedBy {arguments : List String} (h : request.AskedBy entry arguments) :
    run arguments env entry = .ok (request.run env (request.contents entry)) := by
  obtain ⟨given, hread, haction⟩ := h
  rw [run, hread]
  change (given.action entry >>= _) = _
  rw [haction]
  rfl

/-- Some command lines ask for a listing of given files in UTF-8, with given flags but no log, and
they all show the tokens of the files that have some and the diagnostics of the others, in the order
of the files and up to the diagnostic that makes it a hundred. -/
theorem run_listing (hvalid : request.Valid entry) (hquiet : request.verbose = false)
    (hbase : env.options "<input>" = .ok base) {source : String → List Char}
    (hfiles : ∀ file ∈ request.files, entry file = .file (Utf8.encode (source file))) :
    (∃ arguments, request.AskedBy entry arguments) ∧
    ∃ options scanned, request.Overrides base options ∧
      ShortestWith 100 (SourceFile.fails options)
        (request.files.map fun file => ⟨shownPath file, source file⟩) scanned ∧
      let diagnostics := scanned.filterMap (SourceFile.diagnostic? options)
      ∀ arguments, request.AskedBy entry arguments → run arguments env entry = .ok
        { exitCode := if diagnostics = [] then 0 else 1
          stdout := shownListings request.format (decide (1 < request.files.length))
            (scanned.filterMap (SourceFile.listing? options request.noEol))
          stderr := shownReport diagnostics } := by
  refine ⟨Request.exists_askedBy_iff.mpr hvalid, ?_⟩
  obtain ⟨options, hoptions, hover⟩ := hvalid.exists_options hbase
  have hcontents : request.contents entry =
      (request.files.map fun file => (⟨shownPath file, source file⟩ : SourceFile)).map
        SourceFile.encoded := by
    rw [Request.contents_eq hfiles, List.map_map]
    rfl
  obtain ⟨scanned, hscanned, hrun⟩ := scanFiles_decoded options request.noEol
    (request.files.map fun file => ⟨shownPath file, source file⟩)
  refine ⟨options, scanned, hover, hscanned, ?_⟩
  intro diagnostics arguments hasked
  rw [run_eq_of_askedBy hasked, hcontents, Request.run_of_scanFiles hoptions hrun, hquiet]
  exact congrArg _ (congrArg _ String.empty_append)

/-- Of two files under the strict rule the second one fails. -/
theorem listing_of_two_files :
    let source : String → List Char := fun file =>
      if file = "./a.sp" then "x".toList else "|".toList
    let entry : String → Entry := fun file => .file (Utf8.encode (source file))
    run ["--strict-cr", "./a.sp", "b.sp"] { } entry = .ok
      { exitCode := 1
        stdout := "==> a.sp <==\n1:1     IDENTIFIER      'x'\n1:2     EOF\n"
        stderr := "b.sp:1:1: error: unrecognized operator '|'\n    |\n    ^\n" ++
          "hint: did you mean '||'?\n\n1 error\n" } := by
  intro source entry
  have hread : Arguments.read ["--strict-cr", "./a.sp", "b.sp"] =
    .ok { flags := [.strictCr], files := ["./a.sp", "b.sp"] } := by decide +kernel
  have haction : Arguments.action { flags := [.strictCr], files := ["./a.sp", "b.sp"] } entry =
    .ok (.list { files := ["./a.sp", "b.sp"], strictCr := true }) := by decide +kernel
  have hbase : Environment.options { } "<input>" = .ok { } := by decide +kernel
  have hvalid : Request.Valid { files := ["./a.sp", "b.sp"], strictCr := true } entry :=
    ⟨List.cons_ne_nil _ _, fun _ _ => rfl, fun _ hnone => nomatch hnone⟩
  obtain ⟨-, options, scanned, ⟨hcr, hbits⟩, hscanned, hrun⟩ :=
    @run_listing _ _ _ _ hvalid rfl hbase source fun file _ => rfl
  have hfiles : [⟨shownPath "./a.sp", source "./a.sp"⟩, ⟨shownPath "b.sp", source "b.sp"⟩] =
      ([⟨"a.sp", "x".toList⟩, ⟨"b.sp", "|".toList⟩] : List SourceFile) := by decide +kernel
  have hall := hscanned.eq_all (Nat.lt_of_le_of_lt List.countP_le_length (by decide))
  obtain ⟨filename, loneCr, intBits, hmem⟩ := options
  obtain rfl : loneCr = false := hcr
  obtain rfl : intBits = 64 := Int.ofNat.inj hbits
  have hlistings : SourceFile.listing? ⟨filename, false, 64, hmem⟩ =
    SourceFile.listing? { loneCr := false } := rfl
  have hdiagnostics : SourceFile.diagnostic? ⟨filename, false, 64, hmem⟩ =
    SourceFile.diagnostic? { loneCr := false } := rfl
  rw [hrun _ ⟨_, hread, haction⟩, hall, List.map_cons, List.map_cons, List.map_nil, hfiles,
    hlistings, hdiagnostics]
  decide +kernel

/-- A control sequence on the line of an error does not get to the error stream. -/
theorem report_loses_sequence :
    ∃ d outcome, tokenize { filename := "a.sp" } "\x1b[31m$".toList = .error d ∧
      run ["a.sp"] { } (fun _ => .file (Utf8.encode "\x1b[31m$".toList)) = .ok outcome ∧
      outcome.stderr ≠ d.render ++ "\n\n1 error\n" := by
  obtain ⟨d, hd, hrender⟩ := exists_diagnostic
    (show (tokenize { filename := "a.sp" } "\x1b[31m$".toList).mapError Diagnostic.render = .error
      "a.sp:1:1: error: unrecognized character '\\x1b' (0x1B)\n    \x1b[31m$\n    ^" by decide +kernel)
  have hrun : run ["a.sp"] { } (fun _ => .file (Utf8.encode "\x1b[31m$".toList)) = .ok
      { exitCode := 1
        stderr := "a.sp:1:1: error: unrecognized character '\\x1b' (0x1B)\n    $\n    ^\n" ++
          "\n1 error\n" } := by
    decide +kernel
  refine ⟨d, _, hd, hrun, ?_⟩
  rw [hrender]
  decide

end CommandLines

end Lexing.CommandLine
