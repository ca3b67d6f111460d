import Lexing.Proofs.Continuation
import Lexing.Proofs.Printing
import Lexing.Proofs.TokenDiagnosis

/-!
# Taking a scan up again

A text may be cut wherever a scan of it has come to. The text before the cut has the tokens made so
far and ends there, and the text behind it goes on as the whole text does, with its places counted
from the cut.
-/

namespace Lexing

/-- A place of a text as it is counted from another place of that text. Columns are counted from
there on the line of that place only. -/
def Location.since (here : Position) (place : Location) : Location :=
  { place with
    line := place.line - (here.line - 1)
    column := if place.line = here.line then place.column - (here.column - 1) else place.column }

/-- A token of a text as it is counted from a place of that text, in the text behind that place. -/
def Token.since (here : Position) (source : List Char) (t : Token) : Token :=
  { t with
    line := (t.location.since here).line
    column := (t.location.since here).column
    offset := t.offset - here.offset
    source }

/-- What comes of cutting a text at an offset to which a scan of it has come with some tokens. -/
structure Restarts (options : Options) (source : List Char) (o : Nat) (made : List Token) : Prop where
  before : tokenize options (source.take o) =
    .ok (made.map (fun t => { t with source := source.take o }) ++
      [(cursorAt options.loneCr source o).token options (source.take o)
        { kind := .endOfInput, text := [] }])
  behind : ∀ tokens, tokenize options source = .ok tokens → ∃ later, tokens = made ++ later ∧
    tokenize options (source.drop o) =
      .ok (later.map (Token.since (cursorAt options.loneCr source o).position (source.drop o)))
  behind_error : ∀ d, tokenize options source = .error d →
    ∃ line, tokenize options (source.drop o) = .error { d with
      location := d.location.map (Location.since (cursorAt options.loneCr source o).position)
      sourceLine := some line }

section Pieces

variable {options : Options}

theorem Reads.before_end {found : Lexeme} {following : Option Char}
    (h : Reads options found following) : Reads options found none :=
  h.of_inert fun _ hc => nomatch hc

/-- A piece stands in front of a text as it does in front of a longer one. -/
theorem Piece.Before.of_append {piece : Piece} {front back : List Char}
    (h : piece.Before options (front ++ back)) : piece.Before options front := by
  have hhead {c : Char} (h : (front ++ back).head? ≠ some c) : front.head? ≠ some c := by
    cases front with
    | nil => simp
    | cons d front => exact h
  cases h with
  | blank _ hb => exact .blank front hb
  | comment hb he =>
    refine .comment hb ?_
    rcases he with hend | ⟨rfl, hl, more, hmore, hstray⟩
    · left
      generalize hrest : front ++ back = rest at hend
      cases hend with
      | lineFeed => exact .lineFeed front
      | pair => exact .pair front
      | loneReturn hl hr => exact .loneReturn hl (hhead (hrest ▸ hr))
      | endOfText =>
        obtain ⟨rfl, -⟩ := List.append_eq_nil_iff.mp hrest
        exact .endOfText
    · cases front with
      | nil => exact .inl .endOfText
      | cons c front =>
        obtain ⟨rfl, rfl⟩ := List.cons.inj hmore
        refine .inr ⟨rfl, hl, front, rfl, ?_⟩
        cases front with
        | nil => simp
        | cons d front => exact hstray
  | lexeme hr =>
    cases front with
    | nil => exact .lexeme hr.before_end
    | cons c front => exact .lexeme hr

namespace Split

theorem ofText_before {piece : Piece} {rest : List Char} (h : piece.Before options rest)
    (hs : ¬ Scan.StrayReturn options.loneCr rest) :
    ofText options (piece.text ++ rest) = (ofText options rest).cons piece := by
  cases h with
  | blank _ hb => exact ofText_blank options hb rest
  | @comment body ending _ hb he =>
    have hend := he.resolve_right fun hstray => hs hstray.2
    rw [← ofText_comment hb hend]
    simp [Piece.text]
  | lexeme hr => exact ofText_reads hr

/-- The text of the first pieces of a split has these pieces and no others. -/
theorem ofText_front {text : List Char} {done later : List Piece} {stop : Option Stop}
    (h : ofText options text = ⟨done ++ later, stop⟩) :
    ofText options (done.flatMap Piece.text) = ⟨done, none⟩ := by
  induction done generalizing text with
  | nil => exact ofText_nil options
  | cons piece done ih =>
    obtain ⟨rest, -, hbefore, hrest⟩ := ofText_eq_cons h
    have hdone := ih hrest
    obtain ⟨back, rfl, -⟩ := ofText_append hrest
    have hstray : ¬ Scan.StrayReturn options.loneCr (done.flatMap Piece.text) :=
      fun hstray => stop_of_strayReturn hstray (by rw [hdone])
    rw [List.flatMap_cons, ofText_before hbefore.of_append hstray, hdone]
    rfl

end Split

end Pieces

section Cut

variable {options : Options} {source : List Char} {o : Nat} {made : List Token}

theorem Location.since_plus {here position : Position} (hl : 1 ≤ position.line)
    (hc : 1 ≤ position.column) (filename : String) :
    Location.since here ⟨filename, (here.plus position).line, (here.plus position).column⟩ =
      ⟨filename, position.line, position.column⟩ := by
  by_cases hfirst : position.line = 1
  · simp only [since, Position.plus, if_pos hfirst, mk.injEq, true_and]
    omega
  · simp only [since, Position.plus, if_neg hfirst, mk.injEq, true_and]
    omega

/-- A scan that has come to an offset has read nothing but whole pieces, and none ends in a pair. -/
theorem Scanned.le_length (h : Scanned options source o made) :
    o ≤ source.length ∧ ¬ SplitsPair source o := by
  obtain ⟨done, rfl, hs, -⟩ := h.split
  exact not_splitsPair_of_split hs

theorem position_take (h : Scanned options source o made) {n : Nat} (hn : n ≤ o) :
    (cursorAt options.loneCr (source.take o) n).position =
      (cursorAt options.loneCr source n).position := by
  obtain ⟨hlen, hpair⟩ := h.le_length
  have htake : (source.take o).length = o := List.length_take_of_le hlen
  have hstays : ¬ SplitsPair (source.take o ++ source.drop o) (source.take o).length := by
    rwa [htake, List.take_append_drop]
  have hleft : (cursorAt options.loneCr (source.take o ++ source.drop o) n).position =
      (cursorAt options.loneCr (source.take o) n).position :=
    position_append_left (source.drop o) hstays (hn.trans htake.ge)
  rw [List.take_append_drop] at hleft
  exact hleft.symm

/-- The text before the place that a scan has come to has the tokens made so far. -/
theorem tokenize_take (h : Scanned options source o made) : tokenize options (source.take o) =
    .ok (made.map (fun t => { t with source := source.take o }) ++
      [(cursorAt options.loneCr source o).token options (source.take o)
        { kind := .endOfInput, text := [] }]) := by
  obtain ⟨done, rfl, hs, hlater⟩ := h.split
  obtain ⟨rest, hsource, -⟩ := Split.ofText_append hs
  have htake : source.take (extent done) = done.flatMap Piece.text := by
    rw [hsource]
    exact List.take_left
  have hdone := hlater []
  rw [List.append_nil, layOut_nil] at hdone
  refine (tokenize_eq_ok_iff options _).mpr ⟨done, ?_, ?_⟩
  · rw [htake]
    exact Split.ofText_front hs
  · have hmap : ((cursorAt options.loneCr source 0).layOut options source done).map
        (fun t => { t with source := source.take (extent done) }) =
        (cursorAt options.loneCr (source.take (extent done)) 0).layOut options
          (source.take (extent done)) done := by
      apply layOut_map
      intro m hm found
      rw [Nat.zero_add, Cursor.token, Cursor.token, position_take h hm]
    rw [← hmap, hdone, List.map_append]
    rfl

/-- A place behind a cut is counted from there in the text behind the cut. -/
theorem location_drop {m : Nat} (hm : o + m ≤ source.length) :
    ((cursorAt options.loneCr source (o + m)).location options).since
        (cursorAt options.loneCr source o).position =
      (cursorAt options.loneCr (source.drop o) m).location options := by
  have hm' : m ≤ (source.drop o).length := by
    rw [List.length_drop]
    omega
  obtain ⟨hl, hc⟩ := one_le_position options.loneCr hm'
  rw [Cursor.location, position_add _ _ hm]
  exact Location.since_plus hl hc options.filename

theorem token_drop {m : Nat} (hm : o + m ≤ source.length) (found : Lexeme) :
    ((cursorAt options.loneCr source (o + m)).token options source found).since
        (cursorAt options.loneCr source o).position (source.drop o) =
      (cursorAt options.loneCr (source.drop o) m).token options (source.drop o) found := by
  have hplace := @location_drop options source o m hm
  have hoffset := congrArg Position.offset (position_add options.loneCr source hm)
  simp only [Cursor.location] at hplace
  simp only [Cursor.token, Token.since, Token.location, hplace, hoffset, Position.plus]
  simp

theorem Fault.diagnose_elsewhere (fault : Fault) (place place' : Location) (line line' : List Char) :
    fault.diagnose options place' line' = { fault.diagnose options place line with
      location := some place', sourceLine := some line' } := by
  cases fault <;> rfl

/-- The fault found behind a place is found in what is left there, at the place counted from it. -/
theorem diagnose_drop {m : Nat} (hm : o + m ≤ source.length) (fault : Fault) :
    ∃ line, (cursorAt options.loneCr (source.drop o) m).diagnose options fault =
      let d := (cursorAt options.loneCr source (o + m)).diagnose options fault
      { d with
        location := d.location.map (Location.since (cursorAt options.loneCr source o).position)
        sourceLine := some line } := by
  refine ⟨(cursorAt options.loneCr (source.drop o) m).currentLine options.loneCr, ?_⟩
  dsimp only [Cursor.diagnose]
  rw [Fault.location_diagnose, Option.map_some, location_drop hm]
  exact Fault.diagnose_elsewhere _ _ _ _ _

theorem Scanned.restarts (h : Scanned options source o made) :
    Restarts options source o made where
  before := tokenize_take h
  behind := by
    intro tokens htokens
    obtain ⟨pieces, hs, rfl⟩ := (tokenize_eq_ok_iff options source).mp htokens
    obtain ⟨done, rfl, hsplit, hlater⟩ := h.split
    obtain ⟨hpieces, hstop⟩ := Split.mk.inj (hs.symm.trans hsplit)
    have hlen := extent_of_split hs
    obtain ⟨rest, hrest⟩ : ∃ rest, rest = (Split.ofText options (source.drop (extent done))).pieces :=
      ⟨_, rfl⟩
    rw [← hrest] at hpieces
    rw [hpieces, extent_append] at hlen
    refine ⟨_, hpieces ▸ hlater rest, ?_⟩
    have hmap : ((cursorAt options.loneCr source (extent done)).layOut options source rest).map
        (Token.since (cursorAt options.loneCr source (extent done)).position
          (source.drop (extent done))) =
        (cursorAt options.loneCr (source.drop (extent done)) 0).layOut options
          (source.drop (extent done)) rest := by
      apply layOut_map
      intro m hm found
      rw [Nat.zero_add]
      exact token_drop (hlen ▸ Nat.add_le_add_left hm _) found
    rw [hmap]
    refine (tokenize_eq_ok_iff options _).mpr ⟨rest, ?_, rfl⟩
    rw [hrest, hstop]
  behind_error := by
    intro d hd
    obtain ⟨pieces, stop, hs, rfl⟩ := (tokenize_eq_error_iff options source).mp hd
    obtain ⟨c, text, hdrop, -⟩ := next_of_split hs
    have hlen := le_length_of_drop hdrop
    obtain ⟨done, rfl, hsplit, -⟩ := h.split
    obtain ⟨hpieces, hstop⟩ := Split.mk.inj (hs.symm.trans hsplit)
    rw [hpieces, extent_append] at hlen ⊢
    obtain ⟨line, hline⟩ := diagnose_drop hlen stop.fault
    refine ⟨line, ?_⟩
    rw [← hline]
    refine (tokenize_eq_error_iff options _).mpr ⟨_, stop, ?_, rfl⟩
    rw [hstop]

/-- A scan comes to each token with the tokens before it. -/
theorem scanned_of_tokenize {front later : List Token} {t : Token}
    (h : tokenize options source = .ok (front ++ t :: later)) :
    Scanned options source t.start front ∧ t.offset = t.start ∧
      t.location = (cursorAt options.loneCr source t.start).location options := by
  obtain ⟨pieces, hs, htokens⟩ := (tokenize_eq_ok_iff options source).mp h
  obtain ⟨done, rest, rfl, hrest, hhere⟩ := layOut_eq_append options source htokens
  rw [Nat.zero_add] at hrest hhere
  obtain ⟨hlen, -⟩ := not_splitsPair_of_split hs
  have ht : ∃ found,
      t = (cursorAt options.loneCr source (extent done)).token options source found := by
    rcases hhere with ⟨found, -, -, ht⟩ | ⟨-, ht⟩
    · exact ⟨found, ht⟩
    · exact ⟨_, ht⟩
  obtain ⟨found, hfound⟩ := ht
  have hstart : t.start = extent done := by rw [hfound, start_token options source hlen]
  rw [hstart]
  refine ⟨?_, by rw [hfound, Cursor.token, offset_cursorAt _ _ hlen], by rw [hfound]; rfl⟩
  have hreached := Reached.of_split .start hs
  rw [Nat.zero_add] at hreached
  obtain ⟨made, hmade⟩ := hreached.scanned
  -- the tokens made on the way are those that the token list has in front of this one
  obtain ⟨done', -, hsplit, hlater⟩ := hmade.split
  obtain ⟨back, hsource, hback⟩ := Split.ofText_append hs
  have hdrop : source.drop (extent done) = back := by
    rw [hsource]
    exact List.drop_left
  rw [hdrop, hback] at hsplit
  have hpieces := (Split.mk.inj (hs.symm.trans hsplit)).1
  rw [hpieces, hlater rest, hrest] at htokens
  rwa [List.append_cancel_right htokens] at hmade

/-- A scan can be taken up again where a token begins or a fault is found, and wherever else it has
come to. The text before that place has the tokens made so far, and ends there; the text behind it
has what the whole text has from there on, a fault included, counted from that place. -/
theorem tokenize_restarts (options : Options) (source : List Char) :
    (∀ front t later, tokenize options source = .ok (front ++ t :: later) →
      Scanned options source t.start front ∧ t.offset = t.start ∧
        t.location = (cursorAt options.loneCr source t.start).location options) ∧
    (∀ d, tokenize options source = .error d → ∃ p made, p < source.length ∧
      LexemeStart options source p ∧ FailsAt options source p d ∧ Scanned options source p made) ∧
    ∀ o made, Scanned options source o made → Restarts options source o made := by
  refine ⟨fun front t later => scanned_of_tokenize, ?_, fun o made => Scanned.restarts⟩
  intro d hd
  obtain ⟨pieces, stop, hs, rfl⟩ := (tokenize_eq_error_iff options source).mp hd
  obtain ⟨c, text, hdrop, -⟩ := next_of_split hs
  have hstart := lexemeStart_of_split hs
  obtain ⟨made, hmade⟩ := hstart.1.scanned
  exact ⟨extent pieces, made, lt_length_of_drop hdrop, hstart,
    ⟨hd, Fault.location_diagnose _ _ _ _⟩, hmade⟩

/-- Behind a string over two lines the columns count from the cut up to the end of that line. -/
theorem restarts_within_second_line :
    (∃ front t later, tokenize { } "\"a\nb\" x\n7".toList = .ok (front ++ t :: later) ∧
      front.map (·.kind) = [.stringLiteral] ∧ t.text = ['x'] ∧ t.start = 6 ∧
      tokenize { } "\"a\nb\" ".toList =
        .ok (front.map (fun t => { t with source := "\"a\nb\" ".toList }) ++
          [{ kind := .endOfInput, text := [], line := 2, column := 4, offset := 6,
             source := "\"a\nb\" ".toList }]) ∧
      tokenize { } "x\n7".toList =
        .ok ((t :: later).map (Token.since ⟨6, 2, 4⟩ "x\n7".toList))) ∧
    ∃ d p, FailsAt { } "x\n-5 |".toList p d ∧
      (∃ tokens, tokenize { } ("x\n-5 |".toList.take p) = .ok tokens) ∧
      ∃ d', tokenize { } ("x\n-5 |".toList.drop p) = .error d' ∧ d'.kind = d.kind ∧
        d'.message = d.message ∧ d'.hint = d.hint := by
  constructor
  · obtain ⟨tokens, h, ht⟩ := exists_tokens
      (show (tokenize { } "\"a\nb\" x\n7".toList).toOption.map
        (·.map fun t => (t.kind, t.text, t.offset)) =
          some [(.stringLiteral, "\"a\nb\"".toList, 0), (.identifier, ['x'], 6),
            (.endOfLine, ['\n'], 7), (.intLiteral, ['7'], 8), (.endOfInput, [], 9)] by decide +kernel)
    obtain ⟨first, tokens, rfl, hfirst, ht⟩ := List.map_eq_cons_iff.mp ht
    obtain ⟨t, later, rfl, hx, -⟩ := List.map_eq_cons_iff.mp ht
    simp only [Prod.mk.injEq] at hfirst hx
    obtain ⟨hkind, -⟩ := hfirst
    obtain ⟨-, htext, hoffset⟩ := hx
    have hstart : t.start = 6 := by rw [Token.start, hoffset]; rfl
    obtain ⟨hbegins, -, hrestarts⟩ := tokenize_restarts { } "\"a\nb\" x\n7".toList
    obtain ⟨hscanned, -⟩ := hbegins [first] t later h
    rw [hstart] at hscanned
    obtain ⟨hbefore, hbehind, -⟩ := hrestarts 6 [first] hscanned
    obtain ⟨rest, hrest, hbehind⟩ := hbehind _ h
    obtain rfl := (List.cons.inj hrest).2
    exact ⟨[first], t, later, h, by simp [hkind], htext, hstart, hbefore, hbehind⟩
  · obtain ⟨d, hd, -⟩ := exists_diagnostic
      (show (tokenize { } "x\n-5 |".toList).mapError (·.kind) =
        .error (.unrecognizedOperator ['|']) by decide +kernel)
    obtain ⟨-, hfault, hrestarts⟩ := tokenize_restarts { } "x\n-5 |".toList
    obtain ⟨p, made, -, -, hfails, hscanned⟩ := hfault d hd
    obtain ⟨hbefore, -, hbehind⟩ := hrestarts p made hscanned
    obtain ⟨line, hline⟩ := hbehind d hd
    exact ⟨d, p, hfails, ⟨_, hbefore⟩, _, hline, rfl, rfl, rfl⟩

end Cut

end Lexing
