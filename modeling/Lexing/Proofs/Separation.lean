import Lexing.Proofs.Command

/-!
# Files beside one another

As long as all files of a command line can be decoded and few fail, each of them is listed or reported
by itself, whatever the others hold. The first one that cannot be decoded ends the run with nothing
but the reason, and what was found in the files before it is lost.
-/

namespace Lexing.CommandLine

open Text

/-- A file that can be decoded and has no token list. -/
def failsLexically (options : Options) (content : String × List UInt8) : Bool :=
  match Utf8.decode content.2 with
  | .ok text => SourceFile.fails options ⟨content.1, text⟩
  | .error _ => false

section Contents

variable {options : Options}

theorem countP_encoded (files : List SourceFile) :
    (files.map SourceFile.encoded).countP (failsLexically options) =
      files.countP (SourceFile.fails options) := by
  rw [List.countP_map]
  congr 1
  funext file
  rw [Function.comp_apply, failsLexically, SourceFile.encoded, Utf8.decode_eq_ok_iff.mpr rfl]

theorem mem_of_encoded_mem {files : List SourceFile} {name : String} {text : List Char}
    (h : (name, Utf8.encode text) ∈ files.map SourceFile.encoded) :
    (⟨name, text⟩ : SourceFile) ∈ files := by
  obtain ⟨file, hfile, hencoded⟩ := List.mem_map.mp h
  obtain ⟨rfl, htext⟩ := Prod.mk.inj hencoded
  have hdecode := Utf8.decode_eq_ok_iff.mpr htext.symm
  rw [Utf8.decode_eq_ok_iff.mpr rfl] at hdecode
  obtain rfl := Except.ok.inj hdecode
  exact hfile

end Contents

section Runs

variable {request : Request} {env : Environment} {options : Options} {files : List SourceFile}

/-- Files that can be decoded are all in the listing or in the report, if few of them fail. -/
theorem Request.run_shows (hoptions : request.options env = .ok options)
    (hfew : files.countP (SourceFile.fails options) < 100) {file : SourceFile} (hfile : file ∈ files) :
    let outcome := request.run env (files.map SourceFile.encoded)
    (∀ listing, file.listing? options request.noEol = some listing →
      shownListing request.format (decide (1 < request.files.length)) listing <:+:
        outcome.stdout.toList) ∧
    ∀ d, file.diagnostic? options = some d →
      withoutControlSequences d.render.toList <:+: outcome.stderr.toList := by
  have hscan := scanFiles_few request.noEol hfew []
  rw [List.append_nil, scanFiles] at hscan
  intro outcome
  have hrun : outcome = _ := Request.run_of_scanFiles hoptions hscan
  rw [hrun]
  constructor
  · intro listing hlisting
    exact shownListing_within _ _ (List.mem_filterMap.mpr ⟨file, hfile, hlisting⟩)
  · intro d hd
    rw [String.toList_append]
    exact (render_within (List.mem_filterMap.mpr ⟨file, hfile, hd⟩)).trans
      (List.suffix_append _ _).isInfix

/-- The first file that cannot be decoded is all that is left of a run. -/
theorem Request.run_undecodable (hoptions : request.options env = .ok options)
    (hfew : files.countP (SourceFile.fails options) < 100) (name : String) {bytes : List UInt8}
    {fault : Utf8.Fault} (h : Utf8.decode bytes = .error fault)
    (more : List (String × List UInt8)) :
    request.run env (files.map SourceFile.encoded ++ (name, bytes) :: more) =
      { exitCode := 2
        stdout := ""
        stderr :=
          logText request.verbose (files.flatMap (SourceFile.log options) ++ [s!"Tokenizing {name}"]) ++
            echo (Failure.undecodable fault).message.toList } := by
  have hscan := scanFiles_few request.noEol hfew ((name, bytes) :: more)
  rw [scanFiles_undecodable name h] at hscan
  exact Request.run_of_undecodable hoptions hscan

end Runs

section CommandLines

variable {request : Request} {env : Environment} {entry : String → Entry} {base : Options}

/-- With less than a hundred files that fail, the tokens or the diagnostic of every file are shown,
as they are by themselves, exactly as long as no file is undecodable. If there is one, nothing is
shown of any file, and the command ends with the reason why the first such file is not. -/
theorem run_files_apart (hvalid : request.Valid entry)
    (hbase : env.options "<input>" = .ok base) {bytes : String → List UInt8}
    (hfiles : ∀ file ∈ request.files, entry file = .file (bytes file)) :
    (∃ arguments, request.AskedBy entry arguments) ∧
    ∃ options, request.Overrides base options ∧
      (request.files.countP (fun file => failsLexically options (shownPath file, bytes file)) < 100 →
        ∃ outcome,
          (∀ arguments, request.AskedBy entry arguments → run arguments env entry = .ok outcome) ∧
          ((∀ file ∈ request.files, ∃ text, bytes file = Utf8.encode text) →
            ∀ file ∈ request.files, ∀ text, bytes file = Utf8.encode text →
              (∀ listing,
                SourceFile.listing? options request.noEol ⟨shownPath file, text⟩ = some listing →
                shownListing request.format (decide (1 < request.files.length)) listing <:+:
                  outcome.stdout.toList) ∧
              ∀ d, SourceFile.diagnostic? options ⟨shownPath file, text⟩ = some d →
                withoutControlSequences d.render.toList <:+: outcome.stderr.toList) ∧
          ((∃ file ∈ request.files, ∀ text, bytes file ≠ Utf8.encode text) →
            ∃ front first more fault log, request.files = front ++ first :: more ∧
              (∀ file ∈ front, ∃ text, bytes file = Utf8.encode text) ∧
              Utf8.decode (bytes first) = .error fault ∧
              outcome =
                { exitCode := 2
                  stdout := ""
                  stderr := logText request.verbose log ++
                    echo (Failure.undecodable fault).message.toList })) := by
  refine ⟨Request.exists_askedBy_iff.mpr hvalid, ?_⟩
  obtain ⟨options, hoptions, hover⟩ := hvalid.exists_options hbase
  refine ⟨options, hover, ?_⟩
  intro hfew
  refine ⟨_, fun _ => run_eq_of_askedBy, ?_⟩
  rw [Request.contents_eq hfiles]
  have hfew' : (request.files.map fun file => (shownPath file, bytes file)).countP
      (failsLexically options) < 100 := by
    rw [List.countP_map]
    exact hfew
  have hmem {file : String} (hfile : file ∈ request.files) : (shownPath file, bytes file) ∈
      request.files.map fun file => (shownPath file, bytes file) :=
    List.mem_map_of_mem (f := fun file => (shownPath file, bytes file)) hfile
  rcases encoded_or_undecodable (request.files.map fun file => (shownPath file, bytes file)) with
    ⟨files, hall⟩ | ⟨files, name, bad, fault, more, hbad, hsplit⟩
  · rw [hall] at hfew' hmem ⊢
    rw [countP_encoded] at hfew'
    constructor
    · intro _ file hfile text htext
      have hencoded := hmem hfile
      rw [htext] at hencoded
      exact Request.run_shows hoptions hfew' (mem_of_encoded_mem hencoded)
    · rintro ⟨file, hfile, hnone⟩
      obtain ⟨source, -, hsource⟩ := List.mem_map.mp (hmem hfile)
      exact absurd (Prod.mk.inj hsource).2.symm (hnone source.text)
  · obtain ⟨front, rest, hrequest, hfront, hrest⟩ := List.map_eq_append_iff.mp hsplit
    obtain ⟨first, later, rfl, hfirst, rfl⟩ := List.map_eq_cons_iff.mp hrest
    obtain ⟨rfl, rfl⟩ := Prod.mk.inj hfirst
    have hfew'' : files.countP (SourceFile.fails options) < 100 := by
      rw [hsplit, List.countP_append, countP_encoded] at hfew'
      omega
    rw [hsplit]
    constructor
    · intro hall
      obtain ⟨text, htext⟩ := hall first (by rw [hrequest]; simp)
      rw [Utf8.decode_eq_ok_iff.mpr htext] at hbad
      cases hbad
    · intro _
      refine ⟨front, first, later, fault, _, hrequest, ?_, hbad,
        Request.run_undecodable hoptions hfew'' _ hbad _⟩
      intro file hfile
      have hencoded := List.mem_map_of_mem (f := fun file => (shownPath file, bytes file)) hfile
      rw [hfront] at hencoded
      obtain ⟨source, -, hsource⟩ := List.mem_map.mp hencoded
      exact ⟨source.text, (Prod.mk.inj hsource).2.symm⟩

/-- A file that is listed and one that is reported, with a log. -/
theorem apart_of_listed_and_reported :
    let source : String → List Char := fun file =>
      if file = "a.sp" then "x".toList else "|".toList
    ∃ outcome, run ["-v", "a.sp", "b.sp"] { } (fun file => .file (Utf8.encode (source file))) =
        .ok outcome ∧
      "==> a.sp <==\n1:1     IDENTIFIER      'x'\n1:2     EOF\n".toList <:+: outcome.stdout.toList ∧
      ("b.sp:1:1: error: unrecognized operator '|'\n    |\n    ^\n" ++
        "hint: did you mean '||'?").toList <:+: outcome.stderr.toList := by
  intro source
  have hread : Arguments.read ["-v", "a.sp", "b.sp"] =
    .ok { flags := [.verbose], files := ["a.sp", "b.sp"] } := by decide +kernel
  have haction : Arguments.action { flags := [.verbose], files := ["a.sp", "b.sp"] }
      (fun file => .file (Utf8.encode (source file))) =
    .ok (.list { files := ["a.sp", "b.sp"], verbose := true }) := by decide +kernel
  have hbase : Environment.options { } "<input>" = .ok { } := by decide +kernel
  have hvalid : Request.Valid { files := ["a.sp", "b.sp"], verbose := true }
      (fun file => .file (Utf8.encode (source file))) :=
    ⟨List.cons_ne_nil _ _, fun _ _ => rfl, fun _ hnone => nomatch hnone⟩
  obtain ⟨-, options, ⟨hcr, hbits⟩, hrun⟩ := @run_files_apart _ _ _ _ hvalid hbase
    (fun file => Utf8.encode (source file)) fun file _ => rfl
  obtain ⟨filename, loneCr, intBits, hmem⟩ := options
  obtain rfl : loneCr = true := hcr
  obtain rfl : intBits = 64 := Int.ofNat.inj hbits
  obtain ⟨outcome, houtcome, hshown, -⟩ :=
    hrun (Nat.lt_of_le_of_lt List.countP_le_length (by decide))
  have hall := hshown fun file _ => ⟨source file, rfl⟩
  obtain ⟨hlisted, -⟩ := hall "a.sp" (by simp) (source "a.sp") rfl
  obtain ⟨-, hreported⟩ := hall "b.sp" (by simp) (source "b.sp") rfl
  have hlistings : SourceFile.listing? ⟨filename, true, 64, hmem⟩ = SourceFile.listing? { } := rfl
  have hdiagnostics : SourceFile.diagnostic? ⟨filename, true, 64, hmem⟩ =
    SourceFile.diagnostic? { } := rfl
  have hlisting : (SourceFile.listing? { } false ⟨shownPath "a.sp", source "a.sp"⟩).map
      (shownListing .text true) =
        some "==> a.sp <==\n1:1     IDENTIFIER      'x'\n1:2     EOF\n".toList := by
    decide +kernel
  have hdiagnostic : (SourceFile.diagnostic? { } ⟨shownPath "b.sp", source "b.sp"⟩).map
      (fun d => withoutControlSequences d.render.toList) =
        some ("b.sp:1:1: error: unrecognized operator '|'\n    |\n    ^\n" ++
          "hint: did you mean '||'?").toList := by
    decide +kernel
  obtain ⟨listing, hsome, hshape⟩ := Option.map_eq_some_iff.mp hlisting
  obtain ⟨d, hfault, htext⟩ := Option.map_eq_some_iff.mp hdiagnostic
  rw [hlistings] at hlisted
  rw [hdiagnostics] at hreported
  exact ⟨outcome, houtcome _ ⟨_, hread, haction⟩, hshape ▸ hlisted listing hsome,
    htext ▸ hreported d hfault⟩

/-- The listing of the first file is lost if the second one cannot be decoded. -/
theorem listing_lost_beside_undecodable :
    Utf8.encode "x".toList = [0x78] ∧
    ∃ outcome listing,
      run ["a.sp", "b.sp"] { } (fun file => .file (if file = "a.sp" then [0x78] else [0xFF])) =
        .ok outcome ∧
      SourceFile.listing? { } false ⟨"a.sp", "x".toList⟩ = some listing ∧
      ¬ shownListing .text true listing <:+: outcome.stdout.toList := by
  refine ⟨by decide +kernel, ?_⟩
  have hrun : run ["a.sp", "b.sp"] { }
      (fun file => .file (if file = "a.sp" then [0x78] else [0xFF])) = .ok
        { exitCode := 2
          stderr := "Error: input is not valid UTF-8: 'utf-8' codec can't decode byte 0xff " ++
            "in position 0: invalid start byte\n" } := by
    decide +kernel
  have hlisting : (SourceFile.listing? { } false ⟨"a.sp", "x".toList⟩).map
      (shownListing .text true) =
        some "==> a.sp <==\n1:1     IDENTIFIER      'x'\n1:2     EOF\n".toList := by
    decide +kernel
  obtain ⟨listing, hsome, hshown⟩ := Option.map_eq_some_iff.mp hlisting
  refine ⟨_, listing, hrun, hsome, ?_⟩
  rw [hshown]
  intro hinfix
  exact absurd (List.infix_nil.mp hinfix) (by decide)

end CommandLines

end Lexing.CommandLine
