import Lexing.Proofs.Command
import Lexing.Proofs.DocumentUnique
import Lexing.Proofs.JsonText
import Lexing.Proofs.MaximalMunch

/-!
# What a listing in JSON denotes

A listing in JSON is one document in ASCII. It denotes an array with an object for each file, which
holds the kind, text and place of each token and the value of each number literal.
-/

namespace Lexing

open Numeral (Binary64)
open Numeral.Binary64 (IsNearest)

namespace Document

def integer (v : Int) : Document :=
  .number (decide (v < 0)) v

/-- The member for the value of a token: an integer literal has its value itself, a float literal a
number that no other value with this sign is nearest to, and other tokens have no such member. -/
inductive ValueMember (t : Token) : List (List Char × Document) → Prop
  | integer {v : Int} (hk : t.kind = .intLiteral) (hv : t.intValue = some v) :
      ValueMember t [("value".toList, .integer v)]
  | real {x : Binary64} {q : ℚ} (hk : t.kind = .floatLiteral) (hv : t.floatValue = some x)
      (hq : ∀ y : Binary64, y = x ↔ y.negative = x.negative ∧ IsNearest q y) :
      ValueMember t [("value".toList, .number x.negative q)]
  | none (hi : t.kind ≠ .intLiteral) (hf : t.kind ≠ .floatLiteral) : ValueMember t []

/-- A document is the object for a token. -/
def ShowsToken (t : Token) (d : Document) : Prop :=
  ∃ value, ValueMember t value ∧ d = .object
    ([("kind".toList, .string t.kind.name.toList), ("lexeme".toList, .string t.text),
      ("line".toList, .integer t.line), ("column".toList, .integer t.column)] ++ value)

/-- A document is the object for the tokens of a file. -/
def ShowsFile (name : String) (tokens : List Token) (d : Document) : Prop :=
  ∃ ds, List.Forall₂ ShowsToken tokens ds ∧
    d = .object [("file".toList, .string name.toList), ("tokens".toList, .array ds)]

end Document

open Document (ValueMember ShowsToken ShowsFile Denotes)

section Tokens

variable {options : Options} {source : List Char} {tokens : List Token} {t : Token}

/-- A finite number is read back from the number that it is written as. -/
theorem eq_iff_isNearest_shownValue (x y : Binary64) :
    y = x ↔ y.negative = x.negative ∧ IsNearest (shownValue x) y := by
  constructor
  · rintro rfl
    exact ⟨rfl, isNearest_shownValue y⟩
  · intro ⟨hsign, hnearest⟩
    exact hnearest.eq (isNearest_shownValue x) hsign

theorem showsToken_entry (hi : t.kind = .intLiteral → ∃ v, t.intValue = some v)
    (hf : t.kind = .floatLiteral → ∃ x, t.floatValue = some x) :
    ShowsToken t (Listing.entry t).denoted := by
  unfold Listing.entry
  dsimp only
  split
  case h_1 hint =>
    obtain ⟨v, hv⟩ := hi hint
    refine ⟨_, .integer hint hv, ?_⟩
    rw [Lexeme.value, hint, hv]
    rfl
  case h_2 hfloat =>
    obtain ⟨x, hx⟩ := hf hfloat
    refine ⟨_, .real hfloat hx (eq_iff_isNearest_shownValue x), ?_⟩
    rw [Lexeme.value, hfloat, hx]
    rfl
  case h_3 hint hfloat =>
    exact ⟨_, .none hint hfloat, rfl⟩

end Tokens

namespace CommandLine

open Text

section Listings

/-- The tokens of a file that a request shows. -/
def Request.shownTokens (request : Request) (tokens : List Token) : List Token :=
  if request.noEol then tokens.filter fun token => token.kind ≠ .endOfLine else tokens

theorem Request.mem_of_mem_shownTokens {request : Request} {tokens : List Token} {t : Token}
    (h : t ∈ request.shownTokens tokens) : t ∈ tokens := by
  unfold shownTokens at h
  split at h
  · exact List.mem_of_mem_filter h
  · exact h

theorem showsFile_listingObject (listing : Listing)
    (h : ∀ t ∈ listing.tokens, ShowsToken t (Listing.entry t).denoted) :
    ShowsFile listing.file listing.tokens (listingObject listing).denoted := by
  refine ⟨(listing.tokens.map Listing.entry).map Json.denoted, ?_, ?_⟩
  · rw [List.map_map, List.forall₂_map_right_iff, List.forall₂_same]
    exact h
  · rw [← Json.denotedItems_eq]
    rfl

/-- No control sequence is lost from a listing in JSON, and it denotes one document. -/
theorem echo_document (listings : List Listing) :
    let message := (Listing.document listings).indented
    withoutControlSequences message = message ∧ (∀ c ∈ (echo message).toList, c.toNat < 0x80) ∧
    ∀ d, Denotes (echo message).toList d ↔
      d = .array (listings.map fun listing => (listingObject listing).denoted) := by
  intro message
  have hplain := escape_not_mem_indented (Listing.document listings)
  have hdocument : (Listing.document listings).denoted =
      .array (listings.map fun listing => (listingObject listing).denoted) := by
    rw [document_eq, Json.denoted, Json.denotedItems_eq, List.map_map]
    rfl
  rw [echo_of_not_mem hplain, String.toList_ofList]
  refine ⟨withoutControlSequences_of_not_mem hplain, ?_, ?_⟩
  · intro c hc
    rcases List.mem_append.mp hc with hc | hc
    · rcases asciiLines_indented _ c hc with hascii | rfl
      · exact hascii.2.trans (by decide)
      · decide
    · rw [List.mem_singleton.mp hc]
      decide
  · intro d
    rw [← hdocument]
    constructor
    · intro h
      exact h.unique (denotes_indented _)
    · rintro rfl
      exact denotes_indented _

end Listings

section CommandLines

variable {request : Request} {env : Environment} {entry : String → Entry} {options : Options}
  {source : String → List Char} {tokens : String → List Token}

/-- A run over files that can all be tokenized shows the tokens of each of them. -/
theorem Request.run_of_tokens (hoptions : request.options env = .ok options)
    (htokens : ∀ file ∈ request.files,
      tokenize { options with filename := shownPath file } (source file) = .ok (tokens file)) :
    let outcome := request.run env
      (request.files.map fun file => (shownPath file, Utf8.encode (source file)))
    outcome.exitCode = 0 ∧
      outcome.stdout = shownListings request.format (decide (1 < request.files.length))
        (request.files.map fun file => ⟨shownPath file, request.shownTokens (tokens file)⟩) := by
  let files : List SourceFile := request.files.map fun file => ⟨shownPath file, source file⟩
  have hresult : ∀ file ∈ request.files,
      SourceFile.result options ⟨shownPath file, source file⟩ = .ok (tokens file) := htokens
  have hencoded : (request.files.map fun file => (shownPath file, Utf8.encode (source file))) =
      files.map SourceFile.encoded := by
    rw [List.map_map]
    rfl
  have hnone : files.filterMap (SourceFile.diagnostic? options) = [] := by
    rw [List.filterMap_map, List.filterMap_eq_nil_iff]
    intro file hfile
    simp only [Function.comp_apply, SourceFile.diagnostic?, hresult file hfile]
  have hshown : files.filterMap (SourceFile.listing? options request.noEol) =
      request.files.map fun file => ⟨shownPath file, request.shownTokens (tokens file)⟩ := by
    rw [List.filterMap_map, ← List.filterMap_eq_map]
    apply List.filterMap_congr
    intro file hfile
    simp only [Function.comp_apply, SourceFile.listing?, hresult file hfile]
    rfl
  -- since no file fails, the run does not stop before the last one
  have hfew : files.countP (SourceFile.fails options) < 100 := by
    rw [← SourceFile.length_diagnostics, hnone]
    decide
  obtain ⟨scanned, hscanned, hrun⟩ := scanFiles_decoded options request.noEol files
  rw [hscanned.eq_all hfew] at hrun
  intro outcome
  have houtcome : outcome = _ := hencoded ▸ Request.run_of_scanFiles hoptions hrun
  rw [houtcome, hnone, hshown]
  exact ⟨rfl, rfl⟩

theorem shownListings_json (headed : Bool) (listings : List Listing) :
    shownListings .json headed listings = echo (Listing.document listings).indented := by
  rw [← join_echo_messages]
  exact String.empty_append

/-- A command line for a listing in JSON of files that can all be tokenized succeeds. What it shows
is one document in ASCII, from which no control sequence is lost on the way. By the grammar of JSON it
denotes the tokens of the files in their order, and nothing else. -/
theorem run_json_denotes (hvalid : request.Valid entry) (hjson : request.format = .json)
    (hoptions : request.options env = .ok options)
    (hfiles : ∀ file ∈ request.files, entry file = .file (Utf8.encode (source file)))
    (htokens : ∀ file ∈ request.files,
      tokenize { options with filename := shownPath file } (source file) = .ok (tokens file)) :
    (∃ arguments, request.AskedBy entry arguments) ∧
    ∀ arguments, request.AskedBy entry arguments → ∃ outcome message ds,
      run arguments env entry = .ok outcome ∧ outcome.exitCode = 0 ∧
      outcome.stdout = echo message ∧ withoutControlSequences message = message ∧
      (∀ c ∈ outcome.stdout.toList, c.toNat < 0x80) ∧
      (∀ d, Denotes outcome.stdout.toList d ↔ d = .array ds) ∧
      List.Forall₂ (fun file d => ShowsFile (shownPath file) (request.shownTokens (tokens file)) d)
        request.files ds := by
  refine ⟨Request.exists_askedBy_iff.mpr hvalid, ?_⟩
  intro arguments hasked
  let listings : List Listing :=
    request.files.map fun file => ⟨shownPath file, request.shownTokens (tokens file)⟩
  obtain ⟨hexit, hstdout⟩ := Request.run_of_tokens hoptions htokens
  rw [hjson, shownListings_json] at hstdout
  obtain ⟨hplain, hascii, hdenotes⟩ := echo_document listings
  have hrun := @run_eq_of_askedBy _ env _ _ hasked
  rw [Request.contents_eq hfiles] at hrun
  rw [← hstdout] at hascii hdenotes
  refine ⟨_, _, _, hrun, hexit, hstdout, hplain, hascii, hdenotes, ?_⟩
  rw [List.map_map, List.forall₂_map_right_iff, List.forall₂_same]
  intro file hfile
  refine showsFile_listingObject ⟨_, _⟩ ?_
  intro t ht
  obtain ⟨hi, hf⟩ := numbers_of_tokenize (htokens file hfile) (Request.mem_of_mem_shownTokens ht)
  exact showsToken_entry hi hf

/-- A string with a control sequence and with characters that are escaped in one and in two units, and
a number behind it. -/
theorem json_of_string_and_number :
    let source := "\"\x1b[0m\x7f😀\" -1.50".toList
    ∃ outcome tokens file, tokenize { filename := "a.sp" } source = .ok tokens ∧
      run ["--format=json", "a.sp"] { } (fun _ => .file (Utf8.encode source)) = .ok outcome ∧
      (∀ d, Denotes outcome.stdout.toList d ↔ d = .array [file]) ∧ ShowsFile "a.sp" tokens file := by
  intro source
  let entry : String → Entry := fun _ => .file (Utf8.encode source)
  let request : Request := { files := ["a.sp"], format := .json }
  have hread : Arguments.read ["--format=json", "a.sp"] =
    .ok { settings := [(.format, "json")], files := ["a.sp"] } := by decide +kernel
  have haction : Arguments.action { settings := [(.format, "json")], files := ["a.sp"] } entry =
    .ok (.list request) := by decide +kernel
  have hvalid : request.Valid entry :=
    ⟨List.cons_ne_nil _ _, fun _ _ => rfl, fun _ hnone => nomatch hnone⟩
  have hoptions : request.options { } = .ok { filename := "<input>" } := by decide +kernel
  obtain ⟨tokens, htokens, -⟩ := exists_tokens
    (show (tokenize { filename := "a.sp" } source).toOption.map List.length = some 3 by
      decide +kernel)
  have hpath : shownPath "a.sp" = "a.sp" := by decide +kernel
  have hall : ∀ file ∈ request.files,
      tokenize { filename := shownPath file } source = .ok tokens := by
    intro file hfile
    rw [List.mem_singleton.mp hfile, hpath]
    exact htokens
  obtain ⟨-, hrun⟩ := @run_json_denotes request { } entry _ (fun _ => source) (fun _ => tokens)
    hvalid rfl hoptions (fun _ _ => rfl) hall
  obtain ⟨outcome, -, ds, houtcome, -, -, -, -, hdenotes, hfiles⟩ := hrun _ ⟨_, hread, haction⟩
  obtain ⟨file, _, hshows, hnone, rfl⟩ := List.forall₂_cons_left_iff.mp hfiles
  obtain rfl := List.forall₂_nil_left_iff.mp hnone
  rw [hpath] at hshows
  exact ⟨outcome, tokens, _, htokens, houtcome, hdenotes, hshows⟩

end CommandLines

end CommandLine

end Lexing
