import Lexing.CommandLine.Run
import Lexing.Proofs.Utf8

/-!
# Scanning files one by one

Each file that can be decoded adds its own listing or diagnostic to what the run has found, whatever
the files before it have added. The run goes on behind it unless too many files have failed, and it
stops for good at a file that cannot be decoded.
-/

namespace Lexing.CommandLine

open Text

/-- A file under the name that it is shown by, and its text. -/
structure SourceFile where
  name : String
  text : List Char
  deriving DecidableEq

namespace SourceFile

variable (options : Options) (noEol : Bool) (file : SourceFile)

def encoded : String × List UInt8 := (file.name, Utf8.encode file.text)

/-- What tokenizing the file under its name comes to. -/
def result : Except Diagnostic (List Token) :=
  tokenize { options with filename := file.name } file.text

def fails : Bool := !(file.result options).toBool

/-- What the file has in the listings of a run. -/
def listing? : Option Listing :=
  (file.result options).toOption.map fun tokens =>
    ⟨file.name, if noEol then tokens.filter fun token => token.kind ≠ .endOfLine else tokens⟩

/-- What the file has in the report of a run. -/
def diagnostic? : Option Diagnostic :=
  match file.result options with
  | .ok _ => none
  | .error d => some d

def log : List String :=
  [s!"Tokenizing {file.name}", logLine { options with filename := file.name } (file.result options)]

end SourceFile

/-- What a run has found when it has got through some more files. -/
def Progress.after (options : Options) (noEol : Bool) (progress : Progress)
    (files : List SourceFile) : Progress where
  listings := progress.listings ++ files.filterMap (SourceFile.listing? options noEol)
  collector :=
    { progress.collector with
      diagnostics :=
        progress.collector.diagnostics ++ files.filterMap (SourceFile.diagnostic? options) }
  log := progress.log ++ files.flatMap (SourceFile.log options)

/-- The shortest beginning of a list that holds so many failures, or all of a list with fewer. -/
def ShortestWith {α : Type} (limit : Nat) (fails : α → Bool) (all front : List α) : Prop :=
  front <+: all ∧
    ((limit ≤ front.countP fails ∧
        ∀ other, other <+: all → limit ≤ other.countP fails → front.length ≤ other.length) ∨
      all.countP fails < limit ∧ front = all)

section Steps

variable {options : Options} {noEol : Bool} {progress : Progress}

theorem Progress.after_nil : progress.after options noEol [] = progress := by
  simp [Progress.after]

theorem Progress.after_append (files more : List SourceFile) :
    (progress.after options noEol files).after options noEol more =
      progress.after options noEol (files ++ more) := by
  simp [Progress.after]

theorem SourceFile.length_diagnostics (options : Options) (files : List SourceFile) :
    (files.filterMap (SourceFile.diagnostic? options)).length =
      files.countP (SourceFile.fails options) := by
  induction files with
  | nil => rfl
  | cons file files ih =>
    rw [List.countP_cons, ← ih]
    cases hresult : file.result options with
    | ok tokens => simp [SourceFile.diagnostic?, SourceFile.fails, hresult, Except.toBool]
    | error d => simp [SourceFile.diagnostic?, SourceFile.fails, hresult, Except.toBool]

theorem Progress.count_after (files : List SourceFile) :
    (progress.after options noEol files).collector.count =
      progress.collector.count + files.countP (SourceFile.fails options) := by
  rw [Collector.count, after, List.length_append, SourceFile.length_diagnostics, Collector.count]

/-- The name in the options does not matter, since each file is scanned under its own. -/
theorem scanFiles_named (name : String) (files : List (String × List UInt8)) :
    scanFiles { options with filename := name } noEol progress files =
      scanFiles options noEol progress files := by
  cases files with
  | nil => rfl
  | cons file files => rw [scanFiles, scanFiles]

/-- A file that can be decoded adds to what there is only what it comes to by itself. -/
theorem scanFiles_cons (file : SourceFile) (more : List (String × List UInt8)) :
    let next := progress.after options noEol [file]
    scanFiles options noEol progress (file.encoded :: more) =
      if file.fails options = true ∧ next.collector.isFull = true then (next, none)
      else scanFiles options noEol next more := by
  have hnext : (progress.note s!"Tokenizing {file.name}").withResult noEol
      { options with filename := file.name } (file.result options) =
        progress.after options noEol [file] := by
    cases hresult : file.result options with
    | ok tokens =>
      simp [Progress.note, Progress.withResult, Progress.withTokens, Progress.after,
        SourceFile.listing?, SourceFile.diagnostic?, SourceFile.log, hresult, Except.toOption]
    | error d =>
      simp [Progress.note, Progress.withResult, Progress.withDiagnostic, Progress.after,
        SourceFile.listing?, SourceFile.diagnostic?, SourceFile.log, hresult, Except.toOption,
        Collector.add]
  intro next
  rw [SourceFile.encoded, scanFiles, Utf8.decode_eq_ok_iff.mpr rfl]
  dsimp only
  rw [← SourceFile.result, hnext, scanFiles_named, SourceFile.fails]
  cases (file.result options).toBool <;> cases next.collector.isFull <;> rfl

theorem scanFiles_undecodable (name : String) {bytes : List UInt8} {fault : Utf8.Fault}
    (h : Utf8.decode bytes = .error fault) (more : List (String × List UInt8)) :
    scanFiles options noEol progress ((name, bytes) :: more) =
      (progress.note s!"Tokenizing {name}", some fault) := by
  rw [scanFiles, h]

end Steps

section Runs

variable {options : Options} {noEol : Bool} {progress : Progress} {files : List SourceFile}

/-- A run goes on behind files of which too few fail. -/
theorem scanFiles_append (h : (progress.collector.count + files.countP (SourceFile.fails options) :
      Int) < progress.collector.limit) (more : List (String × List UInt8)) :
    scanFiles options noEol progress (files.map SourceFile.encoded ++ more) =
      scanFiles options noEol (progress.after options noEol files) more := by
  induction files generalizing progress with
  | nil => rw [Progress.after_nil, List.map_nil, List.nil_append]
  | cons file files ih =>
    have hcount := @Progress.count_after options noEol progress [file]
    rw [List.countP_singleton] at hcount
    rw [List.countP_cons] at h
    have hroom : ((progress.after options noEol [file]).collector.count +
        files.countP (SourceFile.fails options) : Int) < progress.collector.limit := by
      rw [hcount]
      push_cast at h ⊢
      omega
    have hopen : (progress.after options noEol [file]).collector.isFull = false := by
      rw [Collector.isFull, decide_eq_false_iff_not]
      have hlimit : (progress.after options noEol [file]).collector.limit =
        progress.collector.limit := rfl
      omega
    rw [List.map_cons, List.cons_append, scanFiles_cons, if_neg (by simp [hopen]), ih hroom,
      Progress.after_append, List.singleton_append]

/-- A run ends at the failure that makes it too many. -/
theorem scanFiles_full {file : SourceFile} (h : (progress.collector.count +
      files.countP (SourceFile.fails options) + 1 : Int) = progress.collector.limit)
    (hf : file.fails options = true) (more : List (String × List UInt8)) :
    scanFiles options noEol progress (files.map SourceFile.encoded ++ file.encoded :: more) =
      (progress.after options noEol (files ++ [file]), none) := by
  rw [scanFiles_append (by omega), scanFiles_cons, Progress.after_append, if_pos]
  refine ⟨hf, ?_⟩
  have hlimit : (progress.after options noEol (files ++ [file])).collector.limit =
    progress.collector.limit := rfl
  rw [Collector.isFull, decide_eq_true_iff, Progress.count_after, List.countP_append,
    List.countP_singleton, if_pos hf, hlimit]
  push_cast
  omega

end Runs

section Limits

variable {α : Type} {fails : α → Bool} {limit : Nat} {files : List α}

theorem exists_failure_at (h : limit < files.countP fails) : ∃ front file more,
    files = front ++ file :: more ∧ front.countP fails = limit ∧ fails file = true := by
  induction files generalizing limit with
  | nil => cases h
  | cons file files ih =>
    rw [List.countP_cons] at h
    by_cases hf : fails file = true
    · rw [if_pos hf] at h
      cases limit with
      | zero => exact ⟨[], file, files, rfl, rfl, hf⟩
      | succ limit =>
        obtain ⟨front, last, more, rfl, hcount, hlast⟩ := ih (Nat.lt_of_add_lt_add_right h)
        exact ⟨file :: front, last, more, rfl, by rw [List.countP_cons, if_pos hf, hcount], hlast⟩
    · rw [if_neg hf] at h
      obtain ⟨front, last, more, rfl, hcount, hlast⟩ := ih h
      refine ⟨file :: front, last, more, rfl, ?_, hlast⟩
      rw [List.countP_cons, if_neg hf, hcount, Nat.add_zero]

theorem shortestWith_of_failure {front more : List α} {file : α} (hcount : front.countP fails = limit)
    (hf : fails file = true) :
    ShortestWith (limit + 1) fails (front ++ file :: more) (front ++ [file]) := by
  refine ⟨⟨more, by simp⟩, .inl ⟨?_, ?_⟩⟩
  · rw [List.countP_append, List.countP_singleton, if_pos hf, hcount]
  · intro other hother henough
    by_contra hshort
    rw [List.length_append, List.length_singleton, Nat.not_le] at hshort
    have hwithin : other <+: front :=
      List.prefix_of_prefix_length_le hother (List.prefix_append front _) (Nat.le_of_lt_succ hshort)
    have hfew := hwithin.sublist.countP_le (p := fails)
    omega

/-- A list with few failures is not cut. -/
theorem ShortestWith.eq_all {front : List α} (h : ShortestWith limit fails files front)
    (hfew : files.countP fails < limit) : front = files := by
  obtain ⟨hfront, ⟨hmany, -⟩ | ⟨-, hall⟩⟩ := h
  · exact absurd (hmany.trans hfront.sublist.countP_le) hfew.not_ge
  · exact hall

end Limits

/-- A run goes on behind files of which less than a hundred fail. -/
theorem scanFiles_few {options : Options} {files : List SourceFile} (noEol : Bool)
    (h : files.countP (SourceFile.fails options) < 100) (more : List (String × List UInt8)) :
    scanFiles options noEol {} (files.map SourceFile.encoded ++ more) =
      scanFiles options noEol (Progress.after options noEol {} files) more := by
  apply scanFiles_append
  simpa [Collector.count] using h

/-- What a run finds in files that can be decoded is what they have by themselves, up to the failure
that makes it a hundred. -/
theorem scanFiles_decoded (options : Options) (noEol : Bool) (files : List SourceFile) :
    ∃ scanned, ShortestWith 100 (SourceFile.fails options) files scanned ∧
      scanFiles options noEol {} (files.map SourceFile.encoded) =
        (Progress.after options noEol {} scanned, none) := by
  rcases Nat.lt_or_ge (files.countP (SourceFile.fails options)) 100 with hfew | hmany
  · refine ⟨files, ⟨List.prefix_rfl, .inr ⟨hfew, rfl⟩⟩, ?_⟩
    have hrun := scanFiles_few noEol hfew []
    rwa [List.append_nil, scanFiles] at hrun
  · obtain ⟨front, file, more, rfl, hcount, hf⟩ := @exists_failure_at _ _ 99 _ hmany
    refine ⟨front ++ [file], shortestWith_of_failure hcount hf, ?_⟩
    rw [List.map_append, List.map_cons]
    exact scanFiles_full (by simp [Collector.count, hcount]) hf _

/-- Either all files can be decoded or there is a first one that cannot. -/
theorem encoded_or_undecodable (contents : List (String × List UInt8)) :
    (∃ files : List SourceFile, contents = files.map SourceFile.encoded) ∨
      ∃ (files : List SourceFile) (name : String) (bytes : List UInt8) (fault : Utf8.Fault)
        (more : List (String × List UInt8)), Utf8.decode bytes = .error fault ∧
          contents = files.map SourceFile.encoded ++ (name, bytes) :: more := by
  induction contents with
  | nil => exact .inl ⟨[], rfl⟩
  | cons content contents ih =>
    obtain ⟨name, bytes⟩ := content
    cases hdecode : Utf8.decode bytes with
    | error fault => exact .inr ⟨[], name, bytes, fault, contents, hdecode, rfl⟩
    | ok text =>
      obtain rfl := Utf8.decode_eq_ok_iff.mp hdecode
      rcases ih with ⟨files, rfl⟩ | ⟨files, other, bad, fault, more, hbad, rfl⟩
      · exact .inl ⟨⟨name, text⟩ :: files, rfl⟩
      · exact .inr ⟨⟨name, text⟩ :: files, other, bad, fault, more, hbad, rfl⟩

end Lexing.CommandLine
