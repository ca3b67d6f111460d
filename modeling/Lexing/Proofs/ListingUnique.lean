import Lexing.Proofs.Fields
import Lexing.Proofs.JsonListing
import Lexing.Proofs.Quoted

/-!
# Listings as text are read in one way

The line of a token ends nowhere but at its end, and the place, the kind and the value can be read off
it, also where no space is left behind the place. So a listing shows how many tokens there are, and
what each of them shows of itself.
-/

namespace Lexing

open Numeral (Binary64 integerText)

/-- The characters at which some reader of a text ends a line. -/
def lineBreaks : List Char :=
  ['\n', '\x0b', '\x0c', '\r', '\x1c', '\x1d', '\x1e', '\x85', '\u2028', '\u2029']

/-- Two tokens show the same. The value of a line end is its text. -/
structure Token.SameShown (a b : Token) : Prop where
  line : a.line = b.line
  column : a.column = b.column
  kind : a.kind = b.kind
  value : a.value = b.value

/-- The lines of some tokens, a line feed behind each of them. -/
def listed (tokens : List Token) : List Char :=
  tokens.flatMap fun t => Listing.line t ++ ['\n']

section Values

/-- A finite number is read back from its text, zero with its sign. -/
theorem floatText_inj {x y : Binary64} : x.text = y.text ↔ x = y := by
  refine ⟨?_, congrArg Binary64.text⟩
  intro h
  obtain ⟨hsign, hvalue, -⟩ := (numberText_text x).unique (endsRun_none _) (numberText_text y)
    (endsRun_none _) (congrArg (· ++ []) h)
  have hnearest := isNearest_shownValue x
  rw [hvalue] at hnearest
  exact (eq_iff_isNearest_shownValue y x).mpr ⟨hsign, hnearest⟩

theorem name_inj {kind kind' : TokenKind} : kind.name = kind'.name ↔ kind = kind' := by
  have hread (kind : TokenKind) : TokenKind.ofName? kind.name = some kind := by
    cases kind <;> decide
  refine ⟨?_, congrArg TokenKind.name⟩
  intro h
  rw [← Option.some_inj, ← hread kind, h, hread kind']

theorem integerText_inj {v v' : Int} : integerText v = integerText v' ↔ v = v' := by
  refine ⟨?_, congrArg integerText⟩
  intro h
  have hends : EndsRun isDigit ([] : List Char).head? := endsRun_none _
  exact (integerText_unique hends hends (congrArg (· ++ []) h)).1

/-- Tokens of one kind that are shown in the same way have the same value. -/
theorem Token.ShowsValue.value_eq {a b : Token} {shown shown' : List Char} (ha : a.ShowsValue shown)
    (hb : b.ShowsValue shown') (hk : a.kind = b.kind) (hs : shown = shown') : a.value = b.value := by
  cases ha with
  | integer hka hva =>
    cases hb with
    | integer hkb hvb => simp only [Lexeme.value, hka, hkb, hva, hvb, integerText_inj.mp hs]
    | real hkb hxb => exact absurd (hka.symm.trans (hk.trans hkb)) (by decide)
    | text hib hfb => exact absurd (hk.symm.trans hka) hib
  | real hka hxa =>
    cases hb with
    | integer hkb hvb => exact absurd (hka.symm.trans (hk.trans hkb)) (by decide)
    | real hkb hxb => simp only [Lexeme.value, hka, hkb, hxa, hxb, floatText_inj.mp hs]
    | text hib hfb => exact absurd (hk.symm.trans hka) hfb
  | text hia hfa =>
    cases hb with
    | integer hkb hvb => exact absurd (hk.trans hkb) hia
    | real hkb hxb => exact absurd (hk.trans hkb) hfa
    | text hib hfb =>
      rw [Lexeme.value_of_text hia hfa, Lexeme.value_of_text hib hfb, Text.quote_inj.mp hs]

end Values

section Lines

variable {a b : Token} {shown shown' : List Char}

theorem endsRun_behindPlace (t : Token) (n : Nat) :
    EndsRun isDigit (List.replicate n ' ' ++ (t.kind.name.toList ++ t.behindKind)).head? := by
  obtain ⟨⟨c, more, hname, hc⟩, -, -⟩ := name_fits t.kind
  cases n with
  | zero =>
    rw [hname]
    refine (endsRun_some _ _).mpr (Bool.eq_false_iff.mpr fun hdigit => ?_)
    rw [isWordStart_of_isDigit hdigit] at hc
    exact Bool.false_ne_true hc
  | succ n => exact (endsRun_some _ _).mpr (by decide)

theorem endsRun_behindKind (t : Token) : EndsRun (· != ' ') t.behindKind.head? := by
  obtain ⟨-, -, hlength⟩ := name_fits t.kind
  unfold Token.behindKind
  split
  · exact endsRun_none _
  · obtain ⟨gap, hgap⟩ := Nat.exists_eq_succ_of_ne_zero
      (show 16 - t.kind.name.toList.length ≠ 0 by omega)
    rw [hgap]
    exact (endsRun_some _ _).mpr (by decide)

/-- The line of a token shows its place, whether a space is left behind it or not, and its kind. -/
theorem place_kind_of_line_eq (h : Listing.line a = Listing.line b) :
    a.line = b.line ∧ a.column = b.column ∧ a.kind = b.kind ∧ a.behindKind = b.behindKind := by
  rw [line_eq, line_eq] at h
  have hplace := h
  simp only [placeText, List.append_assoc, List.cons_append] at hplace
  obtain ⟨hline, hbehind⟩ := integerText_unique (by simp [isDigit]) (by simp [isDigit]) hplace
  obtain ⟨hcolumn, -⟩ := integerText_unique (endsRun_behindPlace a _) (endsRun_behindPlace b _)
    (List.cons.inj hbehind).2
  rw [hline, hcolumn, List.append_cancel_left_eq, List.append_cancel_left_eq] at h
  have hword (kind : TokenKind) : ∀ c ∈ kind.name.toList, (c != ' ') = true :=
    fun c hc => bne_iff_ne.mpr (ne_of_mem_of_not_mem hc (name_fits kind).2.1)
  obtain ⟨hname, hrest⟩ := run_unique (hword _) (endsRun_behindKind a) (hword _)
    (endsRun_behindKind b) h
  exact ⟨hline, hcolumn, name_inj.mp (String.toList_inj.mp hname), hrest⟩

/-- The line of a token shows all that the token shows of itself. -/
theorem sameShown_of_line_eq (ha : a.ShowsValue shown) (hb : b.ShowsValue shown')
    (hea : a.kind = .endOfInput → a.text = []) (heb : b.kind = .endOfInput → b.text = [])
    (h : Listing.line a = Listing.line b) : a.SameShown b := by
  obtain ⟨hline, hcolumn, hkind, hbehind⟩ := place_kind_of_line_eq h
  refine ⟨hline, hcolumn, hkind, ?_⟩
  by_cases hend : a.kind = .endOfInput
  · have hend' := hkind.symm.trans hend
    simp only [Lexeme.value, hend, hend', hea hend, heb hend']
  · rw [Token.behindKind, Token.behindKind, ← hkind, if_neg hend, if_neg hend,
      List.append_cancel_left_eq, ha.eq_shown, hb.eq_shown] at hbehind
    exact ha.value_eq hb hkind hbehind

theorem lineFeed_not_mem_line (t : Token) : '\n' ∉ Listing.line t :=
  (printed_line t).not_mem (by decide)

/-- Listings can be told apart line by line. -/
theorem forall₂_of_listed_eq {R : Token → Token → Prop} {tokens tokens' : List Token}
    (hr : ∀ a ∈ tokens, ∀ b ∈ tokens', Listing.line a = Listing.line b → R a b)
    (h : listed tokens = listed tokens') : List.Forall₂ R tokens tokens' := by
  have hline (t : Token) : ∀ c ∈ Listing.line t, (c != '\n') = true :=
    fun c hc => bne_iff_ne.mpr (ne_of_mem_of_not_mem hc (lineFeed_not_mem_line t))
  have hnone (t : Token) (more : List Token) : listed (t :: more) ≠ [] := by
    simp [listed]
  induction tokens generalizing tokens' with
  | nil =>
    cases tokens' with
    | nil => exact .nil
    | cons b tokens' => exact absurd h.symm (hnone b tokens')
  | cons a tokens ih =>
    cases tokens' with
    | nil => exact absurd h (hnone a tokens)
    | cons b tokens' =>
      rw [listed, listed, List.flatMap_cons, List.flatMap_cons, List.append_assoc,
        List.append_assoc] at h
      obtain ⟨hfirst, hmore⟩ := run_unique (hline a) (by simp) (hline b) (by simp) h
      refine .cons (hr a List.mem_cons_self b List.mem_cons_self hfirst) (ih ?_ (List.cons.inj hmore).2)
      exact fun a ha b hb => hr a (List.mem_cons_of_mem _ ha) b (List.mem_cons_of_mem _ hb)

/-- Two token lists with the same listing show the same token by token. -/
theorem forall₂_sameShown {options options' : Options} {source source' : List Char}
    {tokens tokens' : List Token} (h : tokenize options source = .ok tokens)
    (h' : tokenize options' source' = .ok tokens') (hl : listed tokens = listed tokens') :
    List.Forall₂ Token.SameShown tokens tokens' := by
  refine forall₂_of_listed_eq ?_ hl
  intro a ha b hb hline
  obtain ⟨shown, hshown⟩ := exists_showsValue h ha
  obtain ⟨shown', hshown'⟩ := exists_showsValue h' hb
  exact sameShown_of_line_eq hshown hshown' (text_of_endOfInput h ha) (text_of_endOfInput h' hb) hline

theorem count_listed (tokens : List Token) : (listed tokens).count '\n' = tokens.length := by
  induction tokens with
  | nil => rfl
  | cons t tokens ih =>
    rw [listed, List.flatMap_cons, List.count_append, List.count_append,
      List.count_eq_zero.mpr (lineFeed_not_mem_line t)]
    change _ + (listed tokens).count '\n' = _
    rw [ih, List.length_cons]
    exact (Nat.add_comm _ _)

/-- The line of a token holds nothing at which a reader could end a line, and no ESC. -/
theorem line_unbroken (t : Token) :
    ∀ c ∈ Listing.line t, c ∉ lineBreaks ∧ c ≠ '\x1b' := by
  have hbreaks : lineBreaks.all (fun c => !Text.isPrintable c) = true := by decide +kernel
  intro c hc
  have hprinted : Text.isPrintable c = true := printed_line t c hc
  refine ⟨fun hbreak => ?_, ?_⟩
  · have hunprinted := List.all_eq_true.mp hbreaks c hbreak
    rw [hprinted] at hunprinted
    exact Bool.false_ne_true hunprinted
  · rintro rfl
    exact absurd hprinted (by decide)

end Lines

namespace CommandLine

open Text

/-- A command line lists one file as text, its line ends included, under some options that carry the
name of the file. -/
def ListsFile (file : String) (source : List Char) (options : Options) (arguments : List String)
    (env : Environment) (entry : String → Entry) : Prop :=
  entry file = .file (Utf8.encode source) ∧ ∃ request base, Request.AskedBy request entry arguments ∧
    request.files = [file] ∧ request.format = .text ∧ request.noEol = false ∧
    request.options env = .ok base ∧ { base with filename := shownPath file } = options

section Runs

variable {file : String} {source : List Char} {options : Options} {arguments : List String}
  {env : Environment} {entry : String → Entry} {tokens : List Token}

/-- Any options can be asked for, whatever the file. -/
theorem exists_listsFile (source : List Char) (hname : options.filename = shownPath file) :
    ∃ arguments env entry, ListsFile file source options arguments env entry := by
  let entry : String → Entry := fun _ => .file (Utf8.encode source)
  let request : Request :=
    { files := [file], strictCr := !options.loneCr, intBits := some options.intBits }
  have hvalid : request.Valid entry := by
    refine ⟨List.cons_ne_nil _ _, fun _ _ => rfl, ?_⟩
    intro bits hbits
    obtain rfl := Option.some.inj hbits
    exact ⟨Int.ofNat_le.mpr options.intBits_mem.1, Int.ofNat_le.mpr options.intBits_mem.2⟩
  have hbase : Environment.options { } "<input>" = .ok (.named "<input>") := rfl
  obtain ⟨chosen, hchosen, hcr, hbits⟩ := hvalid.exists_options hbase
  obtain ⟨arguments, hasked⟩ := Request.exists_askedBy_iff.mpr hvalid
  refine ⟨arguments, { }, entry, rfl, request, chosen, hasked, rfl, rfl, rfl, hchosen, ?_⟩
  obtain ⟨filename, loneCr, intBits, hmem⟩ := options
  obtain ⟨_, chosenCr, chosenBits, _⟩ := chosen
  obtain rfl : filename = shownPath file := hname
  obtain rfl : chosenCr = loneCr := hcr.trans (by simp [request, Options.named])
  obtain rfl : chosenBits = intBits := Int.ofNat.inj hbits
  rfl

/-- What a command line shows that lists one file. -/
theorem run_of_listsFile (h : ListsFile file source options arguments env entry)
    (htokens : tokenize options source = .ok tokens) :
    ∃ outcome, run arguments env entry = .ok outcome ∧ outcome.exitCode = 0 ∧
      outcome.stdout.toList = listed tokens := by
  obtain ⟨hentry, request, base, hasked, hfiles, htext, hall, hoptions, rfl⟩ := h
  have hone : ∀ other ∈ request.files, other = file := by
    rw [hfiles]
    exact fun other hother => List.mem_singleton.mp hother
  obtain ⟨hexit, hstdout⟩ := @Request.run_of_tokens request env base (fun _ => source)
    (fun _ => tokens) hoptions fun other hother => hone other hother ▸ htokens
  have hcontents := @Request.contents_eq request entry (fun _ => Utf8.encode source)
    fun other hother => hone other hother ▸ hentry
  have hrun := @run_eq_of_askedBy _ env _ _ hasked
  rw [hcontents] at hrun
  refine ⟨_, hrun, hexit, ?_⟩
  rw [hstdout, htext, hfiles, shownListings, String.toList_ofList, List.map_singleton,
    List.flatMap_singleton, shownListing, Request.shownTokens, hall]
  rfl

/-- Every text that can be tokenized can be listed by itself, under any options. The listing has one
line for each token, from which no control sequence is lost and which no reader breaks. Another text
with the same listing, under whatever options, has tokens that show the same one by one. -/
theorem run_text_unambiguous (htokens : tokenize options source = .ok tokens)
    (hname : options.filename = shownPath file) :
    (∃ arguments env entry, ListsFile file source options arguments env entry) ∧
    ∀ arguments env entry, ListsFile file source options arguments env entry →
      ∃ outcome, run arguments env entry = .ok outcome ∧ outcome.exitCode = 0 ∧
      outcome.stdout.toList = listed tokens ∧ outcome.stdout.toList.count '\n' = tokens.length ∧
      (∀ t ∈ tokens, withoutControlSequences (Listing.line t) = Listing.line t ∧
        ∀ c ∈ Listing.line t, c ∉ lineBreaks ∧ c ≠ '\x1b') ∧
      ∀ file' source' options' arguments' env' entry' tokens' outcome',
        ListsFile file' source' options' arguments' env' entry' →
        tokenize options' source' = .ok tokens' → run arguments' env' entry' = .ok outcome' →
        outcome'.stdout = outcome.stdout → List.Forall₂ Token.SameShown tokens tokens' := by
  refine ⟨exists_listsFile source hname, ?_⟩
  intro arguments env entry h
  obtain ⟨outcome, hrun, hexit, hstdout⟩ := run_of_listsFile h htokens
  refine ⟨outcome, hrun, hexit, hstdout, hstdout ▸ count_listed tokens, ?_, ?_⟩
  · intro t _
    have hunbroken := line_unbroken t
    exact ⟨withoutControlSequences_of_not_mem fun hc => (hunbroken _ hc).2 rfl, hunbroken⟩
  · intro file' source' options' arguments' env' entry' tokens' outcome' h' htokens' hrun' hsame
    obtain ⟨_, hother, -, hstdout'⟩ := run_of_listsFile h' htokens'
    obtain rfl := Except.ok.inj (hrun'.symm.trans hother)
    refine forall₂_sameShown htokens htokens' ?_
    rw [← hstdout, ← hsame, hstdout']

/-- A string over two lines with a control sequence in it. The listing does not show the comment, and
it shows the same number for 1.50 and 1.5. -/
theorem unambiguous_of_string_and_number :
    let source := "\"\n\x1b[0m\" 1.50#a".toList
    let other := "\"\n\x1b[0m\" 1.5 #b".toList
    let stdout := "1:1     STRING_LITERAL  '\"\\n\\x1b[0m\"'\n2:7     FLOAT_LITERAL   1.5\n" ++
      "2:13    EOF\n"
    ∃ tokens tokens', tokenize { filename := "a.sp" } source = .ok tokens ∧
      tokenize { filename := "a.sp" } other = .ok tokens' ∧
      run ["a.sp"] { } (fun _ => .file (Utf8.encode source)) = .ok { stdout } ∧
      stdout.toList.count '\n' = tokens.length ∧ List.Forall₂ Token.SameShown tokens tokens' := by
  intro source other stdout
  obtain ⟨tokens, htokens, -⟩ := exists_tokens
    (show (tokenize { filename := "a.sp" } source).toOption.map List.length = some 3 by
      decide +kernel)
  obtain ⟨tokens', htokens', -⟩ := exists_tokens
    (show (tokenize { filename := "a.sp" } other).toOption.map List.length = some 3 by
      decide +kernel)
  have hname : "a.sp" = shownPath "a.sp" := by decide +kernel
  have hread : Arguments.read ["a.sp"] = .ok { files := ["a.sp"] } := by decide +kernel
  have hlists (text : List Char) : ListsFile "a.sp" text { filename := "a.sp" } ["a.sp"] { }
      fun _ => .file (Utf8.encode text) :=
    ⟨rfl, { files := ["a.sp"] }, .named "<input>", ⟨_, hread, rfl⟩, rfl, rfl, rfl, rfl, by
      rw [← hname]; rfl⟩
  have hrun : run ["a.sp"] { } (fun _ => .file (Utf8.encode source)) = .ok { stdout } := by
    decide +kernel
  have hrun' : run ["a.sp"] { } (fun _ => .file (Utf8.encode other)) = .ok { stdout } := by
    decide +kernel
  obtain ⟨-, hall⟩ := @run_text_unambiguous "a.sp" source _ tokens htokens hname
  obtain ⟨outcome, hrun₀, -, -, hcount, -, hunique⟩ := hall _ _ _ (hlists source)
  obtain rfl := Except.ok.inj (hrun.symm.trans hrun₀)
  exact ⟨tokens, tokens', htokens, htokens', hrun, hcount,
    hunique _ _ _ _ _ _ _ _ (hlists other) htokens' hrun' rfl⟩

end Runs

end CommandLine

end Lexing
