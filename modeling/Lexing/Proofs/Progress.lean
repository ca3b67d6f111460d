import Lexing.Proofs.Attempt
import Lexing.Proofs.Failure
import Lexing.Proofs.Partition
import Lexing.Proofs.Steps

/-!
# Progress of a scan

From whatever cursor before the end of a text, the scan of the next lexeme either fails or moves the
cursor over the characters of one token or one comment. So the loop that makes one such scan after the
other comes to an end, with no more scans than the text has characters.
-/

namespace Lexing

namespace Cursor

/-- What the scan of the next lexeme does at a cursor: it fails and does not move back, or it moves over
the text of a token or over a comment. -/
inductive Advances (source : List Char) (cursor : Cursor) : Answer × Cursor → Prop
  | failed {d : Diagnostic} {reached : Cursor} (hd : d.kind ≠ .general)
      (h : cursor.position.offset ≤ reached.position.offset) :
      Advances source cursor (.failed d, reached)
  | token {t : Token} {reached : Cursor} (h : cursor.position.offset < reached.position.offset)
      (hc : source[cursor.position.offset]? ≠ some '#') (ho : t.offset = cursor.position.offset)
      (ht : t.text = between source cursor.position.offset reached.position.offset) :
      Advances source cursor (.token (some t), reached)
  | comment {reached : Cursor} (h : cursor.position.offset < reached.position.offset)
      (hc : source[cursor.position.offset]? = some '#') :
      Advances source cursor (.token none, reached)

/-- The loop that scans a text from a cursor on, blanks skipped behind each scan: how many scans it
makes, what they come to, and where it ends. -/
inductive Loops (options : Options) : Cursor → Nat → Except Diagnostic (List Token) → Cursor → Prop
  | done {cursor : Cursor} (h : cursor.ahead = []) : Loops options cursor 0 (.ok []) cursor
  | failed {cursor reached : Cursor} {d : Diagnostic} (h : cursor.ahead ≠ [])
      (hn : cursor.perform options .next = (.failed d, reached)) :
      Loops options cursor 1 (.error d) reached
  | more {cursor reached last : Cursor} {found : Option Token} {n : Nat}
      {result : Except Diagnostic (List Token)} (h : cursor.ahead ≠ [])
      (hn : cursor.perform options .next = (.token found, reached))
      (hl : Loops options (reached.perform options .skipBlanks).2 n result last) :
      Loops options cursor (n + 1) (result.map (found.toList ++ ·)) last

/-- A loop makes a scan for each of its tokens. -/
theorem Loops.length_le {options : Options} {cursor last : Cursor} {n : Nat}
    {result : Except Diagnostic (List Token)} (h : Loops options cursor n result last) :
    ∀ tokens, result = .ok tokens → tokens.length ≤ n := by
  induction h with
  | done _ =>
    intro tokens ht
    simp [← Except.ok.inj ht]
  | failed _ _ =>
    intro tokens ht
    cases ht
  | @more _ _ _ found n result _ _ _ ih =>
    intro tokens ht
    cases result with
    | error d => cases ht
    | ok later =>
      have hlater := ih later rfl
      have hfound : found.toList.length ≤ 1 := by cases found <;> simp
      rw [← Except.ok.inj ht, List.length_append]
      omega

end Cursor

section Dispatch

variable (options : Options) (source : List Char) {n : Nat} {c : Char} {rest : List Char}

/-- A blank begins no lexeme. -/
theorem Scan.next_of_isBlank (hb : isBlank c = true) (rest : List Char) :
    Scan.next options c rest =
      (Scan.refuse (.unrecognizedCharacter c) (c :: rest)).map some := by
  have hblank := isBlank_iff.mp hb
  rcases hblank with rfl | rfl
  · rfl
  · rfl

theorem perform_next_cursorAt (h : source.drop n = c :: rest) :
    (cursorAt options.loneCr source n).perform options .next =
      (cursorAt options.loneCr source n).settle options (Scan.next options c rest) := by
  simp only [Cursor.perform, Cursor.settleNonempty, ahead_cursorAt, h]

theorem settle_cursorAt_ok {scan : Scan (Option Lexeme)} {lexeme? : Option Lexeme}
    (h : scan.outcome = .ok lexeme?) :
    (cursorAt options.loneCr source n).settle options scan =
      (.token (lexeme?.map ((cursorAt options.loneCr source n).token options source)),
        cursorAt options.loneCr source (n + scan.taken.length)) := by
  simp [Cursor.settle, h]

theorem settle_cursorAt_error {scan : Scan (Option Lexeme)} {fault : Fault}
    (h : scan.outcome = .error fault) :
    (cursorAt options.loneCr source n).settle options scan =
      (.failed ((cursorAt options.loneCr source n).diagnose options fault),
        cursorAt options.loneCr source (n + scan.taken.length)) := by
  simp [Cursor.settle, h]

theorem Fault.kind_ne_general (fault : Fault) : fault.kind ≠ .general := by
  cases fault <;> simp [Fault.kind]

/-- Where a character is ahead, the scan of the next lexeme fails or moves on. -/
theorem advances_cursorAt (h : source.drop n = c :: rest) :
    (cursorAt options.loneCr source n).Advances source
      ((cursorAt options.loneCr source n).perform options .next) := by
  have hcovers : source.drop n = (Scan.next options c rest).taken ++
      (Scan.next options c rest).rest := h.trans (Scan.next_covers options c rest).symm
  have hle := le_length_of_drop h
  have hreached := add_length_le_of_drop hle hcovers
  have hget : source[n]? = some c := by
    rw [← List.head?_drop, h, List.head?_cons]
  rw [perform_next_cursorAt options source h]
  cases ho : (Scan.next options c rest).outcome with
  | error fault =>
    rw [settle_cursorAt_error options source ho]
    apply Cursor.Advances.failed
    · rw [Cursor.diagnose, Fault.kind_diagnose]
      exact fault.kind_ne_general
    · rw [offset_cursorAt _ _ hle, offset_cursorAt _ _ hreached]
      exact Nat.le_add_right _ _
  | ok lexeme? =>
    have hmoved : n < n + (Scan.next options c rest).taken.length :=
      Nat.lt_add_of_pos_right (List.length_pos_iff.mpr (Scan.next_taken_ne_nil ho))
    have hblank : isBlank c = false := by
      by_contra hb
      rw [Bool.not_eq_false] at hb
      rw [Scan.next_of_isBlank options hb] at ho
      cases ho
    rw [settle_cursorAt_ok options source ho]
    cases lexeme? with
    | none =>
      apply Cursor.Advances.comment
      · rwa [offset_cursorAt _ _ hle, offset_cursorAt _ _ hreached]
      · rw [offset_cursorAt _ _ hle, hget, Scan.eq_hash_of_next_none hblank ho]
    | some found =>
      apply Cursor.Advances.token
      · rwa [offset_cursorAt _ _ hle, offset_cursorAt _ _ hreached]
      · rw [offset_cursorAt _ _ hle, hget]
        intro hhash
        rw [Option.some.inj hhash, Scan.next_hash] at ho
        cases ho
      · rfl
      · rw [offset_cursorAt _ _ hle, offset_cursorAt _ _ hreached,
          between_of_drop source hcovers]
        exact (Scan.reads_of_next hblank ho).1

end Dispatch

section Loop

variable (options : Options) (source : List Char) {n : Nat}

/-- What tokenizing comes to from an offset on. -/
private def resultAt (n : Nat) : Except Diagnostic (List Token) :=
  ((cursorAt options.loneCr source n).tokenize options).1

/-- The token that a piece is, if it is a lexeme. -/
private def Piece.token? (cursor : Cursor) : Piece → Option Token
  | .lexeme found => some (cursor.token options source found)
  | _ => none

private theorem resultAt_cons (piece : Piece)
    (h : Split.ofText options (source.drop n) =
      (Split.ofText options (source.drop (n + piece.text.length))).cons piece) :
    resultAt options source n = (resultAt options source (n + piece.text.length)).map
      ((piece.token? options source (cursorAt options.loneCr source n)).toList ++ ·) := by
  simp only [resultAt, Cursor.tokenize, ahead_cursorAt, h, Split.cons, source_cursorAt,
    List.foldl_cons, Cursor.pass, skip_cursorAt]
  cases (Split.ofText options (source.drop (n + piece.text.length))).stop with
  | some stop => rfl
  | none => cases piece <;> simp [Cursor.layOut, Cursor.pass, Piece.token?, Except.map]

private theorem resultAt_end (h : source.drop n = []) :
    resultAt options source n = .ok [endToken options source n] := by
  simp [resultAt, Cursor.tokenize, h]

private theorem resultAt_error {c : Char} {rest : List Char} {fault : Fault}
    (h : source.drop n = c :: rest) (hb : isBlank c = false)
    (ho : (Scan.next options c rest).outcome = .error fault) : resultAt options source n =
      .error ((cursorAt options.loneCr source n).diagnose options fault) := by
  simp [resultAt, Cursor.tokenize, h, Split.ofText_of_error hb ho]

private theorem resultAt_ok {c : Char} {rest : List Char} {lexeme? : Option Lexeme}
    (h : source.drop n = c :: rest) (hb : isBlank c = false)
    (ho : (Scan.next options c rest).outcome = .ok lexeme?) : resultAt options source n =
      (resultAt options source (n + (Scan.next options c rest).taken.length)).map
        ((lexeme?.map ((cursorAt options.loneCr source n).token options source)).toList ++ ·) := by
  have hdrop := drop_of_drop (h.trans (Scan.next_covers options c rest).symm)
  have htext := Split.text_ofScan hb ho
  rw [resultAt_cons options source (.ofScan (Scan.next options c rest).taken lexeme?), htext]
  · cases lexeme? <;> rfl
  · rw [htext, h, Split.ofText_of_ok hb ho, hdrop]

/-- Blanks make no tokens. -/
private theorem resultAt_blanks (n : Nat) : resultAt options source n =
    resultAt options source (n + ((source.drop n).takeWhile isBlank).length) := by
  induction ht : source.drop n generalizing n with
  | nil => rfl
  | cons c rest ih =>
    by_cases hb : isBlank c = true
    · have hrest : source.drop (n + 1) = rest :=
        drop_of_drop (ht.trans (show c :: rest = [c] ++ rest from rfl))
      have hblank := @resultAt_cons options source n (.blank c)
        (by rw [ht, Split.ofText_blank options hb, ← hrest]; rfl)
      rw [List.takeWhile_cons_of_pos hb, List.length_cons, Nat.add_comm _ 1, ← Nat.add_assoc,
        ← ih (n + 1) hrest, hblank]
      change (resultAt options source (n + 1)).map _ = _
      cases resultAt options source (n + 1) <;> rfl
    · rw [List.takeWhile_cons_of_neg hb, List.length_nil, Nat.add_zero]

/-- The loop from a cursor on makes no more scans than there are characters behind an offset, and comes
to what tokenizing comes to from that offset on. -/
private def EndsFrom (cursor : Cursor) (n : Nat) : Prop :=
  ∃ k result last, k ≤ source.length - n ∧ Cursor.Loops options cursor k result last ∧
    resultAt options source n =
      result.map (· ++ [last.token options source { kind := .endOfInput, text := [] }])

variable {options source}

private theorem endsFrom_step (hb : EndsRun isBlank (source.drop n).head?)
    (ih : ∀ m, n < m → m ≤ source.length →
      EndsFrom options source ((cursorAt options.loneCr source m).perform options .skipBlanks).2 m) :
    EndsFrom options source (cursorAt options.loneCr source n) n := by
  have hahead := ahead_cursorAt options.loneCr source n
  cases ht : source.drop n with
  | nil =>
    rw [ht] at hahead
    exact ⟨0, .ok [], _, Nat.zero_le _, .done hahead, resultAt_end options source ht⟩
  | cons c rest =>
    have hlt := lt_length_of_drop ht
    have hblank : isBlank c = false := by
      rw [ht] at hb
      exact (endsRun_some _ _).mp hb
    have hne : (cursorAt options.loneCr source n).ahead ≠ [] := by
      simp [ht]
    have hnext := perform_next_cursorAt options source ht
    cases ho : (Scan.next options c rest).outcome with
    | error fault =>
      rw [settle_cursorAt_error options source ho] at hnext
      exact ⟨1, .error _, _, by omega, .failed hne hnext, resultAt_error options source ht hblank ho⟩
    | ok lexeme? =>
      rw [settle_cursorAt_ok options source ho] at hnext
      have hmoved := List.length_pos_iff.mpr (Scan.next_taken_ne_nil ho)
      have hreached := add_length_le_of_drop hlt.le (ht.trans (Scan.next_covers options c rest).symm)
      obtain ⟨k, result, last, hk, hloops, hresult⟩ := ih _ (by omega) hreached
      refine ⟨k + 1, _, last, by omega, .more hne hnext hloops, ?_⟩
      rw [resultAt_ok options source ht hblank ho, hresult]
      cases result with
      | error d => rfl
      | ok tokens => simp [Except.map]

/-- From every offset on the loop comes to an end, and to what tokenizing comes to. -/
private theorem endsFrom_skipBlanks (hn : n ≤ source.length) :
    EndsFrom options source ((cursorAt options.loneCr source n).perform options .skipBlanks).2 n := by
  induction hm : source.length - n using Nat.strong_induction_on generalizing n with
  | _ m ih =>
    subst hm
    let blanks := (source.drop n).takeWhile isBlank
    have hskip : ((cursorAt options.loneCr source n).perform options .skipBlanks).2 =
        cursorAt options.loneCr source (n + blanks.length) := by
      simp [Cursor.perform, Cursor.skipWhile, blanks]
    have hsplit : source.drop n = blanks ++ (source.drop n).dropWhile isBlank :=
      List.takeWhile_append_dropWhile.symm
    have hends : EndsRun isBlank (source.drop (n + blanks.length)).head? := by
      rw [drop_of_drop hsplit]
      exact endsRun_dropWhile isBlank _
    obtain ⟨k, result, last, hk, hloops, hresult⟩ := endsFrom_step hends fun m hlt hle =>
      ih _ (by omega) hle rfl
    rw [hskip]
    refine ⟨k, result, last, by omega, hloops, ?_⟩
    exact (resultAt_blanks options source n).trans hresult

end Loop

section Progress

/-- At whatever cursor before the end of a text a scan of the next lexeme is made, it carries out no
operation where that is undefined, and it fails without moving back or moves on over a token or a
comment. The loop over these scans comes to an end, with no more of them than there are characters. -/
theorem dispatch_progress (options : Options) (source : List Char) :
    (∀ steps, ∀ cursor ∈ Cursor.start source ::
        ((Cursor.start source).performAll options steps).map (·.2),
      cursor.position.offset < source.length →
        (∃ scan, Scan.attempt options cursor.ahead = .ok scan ∧
          cursor.perform options .next = cursor.settle options scan) ∧
        cursor.Advances source (cursor.perform options .next)) ∧
    (∃ n result last, n ≤ source.length ∧
      Cursor.Loops options ((Cursor.start source).perform options .skipBlanks).2 n result last ∧
      tokenize options source =
        result.map (· ++ [last.token options source { kind := .endOfInput, text := [] }])) ∧
    ∀ tokens, tokenize options source = .ok tokens → tokens.length ≤ source.length + 1 := by
  have hloop := @endsFrom_skipBlanks options source 0 (Nat.zero_le source.length)
  refine ⟨?_, hloop, ?_⟩
  · intro steps cursor hcursor hlt
    obtain ⟨n, hn, rfl⟩ : ∃ n, n ≤ source.length ∧ cursor = cursorAt options.loneCr source n := by
      obtain ⟨offsets, -, hlen, hrun⟩ :=
        performAll_cursorAt options source (Nat.zero_le source.length) steps
      rcases List.mem_cons.mp hcursor with rfl | hcursor
      · exact ⟨0, Nat.zero_le _, rfl⟩
      · have hcursors : cursor ∈ offsets.map (cursorAt options.loneCr source) := hrun ▸ hcursor
        obtain ⟨m, hm, rfl⟩ := List.mem_map.mp hcursors
        exact ⟨m, hlen m hm, rfl⟩
    rw [offset_cursorAt _ _ hn] at hlt
    have ht := List.drop_eq_getElem_cons hlt
    refine ⟨⟨_, ?_, perform_next_cursorAt options source ht⟩, advances_cursorAt options source ht⟩
    rw [ahead_cursorAt, ht, Scan.attempt_eq]
  · intro tokens htokens
    obtain ⟨n, result, last, hn, hloops, hresult⟩ := hloop
    change tokenize options source = _ at hresult
    rw [htokens] at hresult
    cases result with
    | error d => cases hresult
    | ok found =>
      have hlength := hloops.length_le found rfl
      rw [Except.ok.inj hresult, List.length_append, List.length_singleton]
      omega

/-- Behind the sign of a number the scan takes the digits for a number of their own. -/
theorem progress_within_number :
    let cursor := (Cursor.start "-5 #".toList).advance true
    cursor.position.offset < "-5 #".toList.length ∧
      (∃ scan, Scan.attempt { } cursor.ahead = .ok scan ∧
        cursor.perform { } .next = cursor.settle { } scan) ∧
      cursor.Advances "-5 #".toList (cursor.perform { } .next) ∧
      (∃ n result last, n ≤ "-5 #".toList.length ∧
        Cursor.Loops { } ((Cursor.start "-5 #".toList).perform { } .skipBlanks).2 n result last ∧
        tokenize { } "-5 #".toList =
          result.map (· ++ [last.token { } "-5 #".toList { kind := .endOfInput, text := [] }])) ∧
      ∃ tokens, tokenize { } "-5 #".toList = .ok tokens ∧
        tokens.length ≤ "-5 #".toList.length + 1 := by
  intro cursor
  obtain ⟨hcursors, hloop, hlength⟩ := dispatch_progress { } "-5 #".toList
  have hlt : cursor.position.offset < "-5 #".toList.length := by decide
  obtain ⟨hattempt, hadvances⟩ :=
    hcursors [.advance] cursor (List.mem_cons_of_mem _ List.mem_cons_self) hlt
  obtain ⟨tokens, htokens, -⟩ := exists_tokens
    (show (tokenize { } "-5 #".toList).toOption.map List.length = some 2 by decide +kernel)
  exact ⟨hlt, hattempt, hadvances, hloop, tokens, htokens, hlength tokens htokens⟩

end Progress

end Lexing
