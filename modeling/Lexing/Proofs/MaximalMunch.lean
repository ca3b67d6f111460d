import Lexing.Proofs.Pieces
import Lexing.Proofs.Placement

/-!
# Maximal munch

Every token but the last is the longest lexeme of the grammar that its text begins with. What may
make a lexeme longer is known from how the lexeme begins, and the scan stops only where the next
character rules that out.
-/

namespace Lexing

/-- A text is the longest lexeme that another one begins with, and of one kind only. -/
structure Longest (loneCr : Bool) (text ahead : List Char) (kind : TokenKind) : Prop where
  begins : text <+: ahead
  spelled : ∀ other, Spelled loneCr text other ↔ other = kind
  longest : ∀ longer other, longer <+: ahead → Spelled loneCr longer other →
    longer.length ≤ text.length

section Spellings

variable {loneCr : Bool} {kind : TokenKind}

/-- A lexeme that begins like a word is a word. -/
theorem Spelled.of_wordStart {c : Char} {text : List Char} (hc : isWordStart c = true)
    (h : Spelled loneCr (c :: text) kind) : ∀ d ∈ text, isWordChar d = true := by
  have hhead := not_number_head hc
  generalize hg : c :: text = whole at h
  cases h with
  | word _ ht =>
    obtain ⟨rfl, rfl⟩ := List.cons.inj hg
    exact fun d hd => isWordChar_iff.mpr (ht d hd)
  | integer hs hd =>
    rw [← List.append_nil (_ ++ _)] at hg
    exact absurd hg (ne_number hs hd hhead)
  | float hs hd _ => exact absurd hg (ne_number hs hd hhead)
  | string _ =>
    rw [(List.cons.inj hg).1] at hc
    exact absurd hc (by decide)
  | mark hm =>
    rw [← hg] at hm
    exact absurd List.mem_cons_self (not_mem_of_mark hm (.inl (isWordChar_of_isWordStart hc)))

theorem Spelled.of_quote {text : List Char} (h : Spelled loneCr ('"' :: text) kind) :
    ∃ body, '"' ∉ body ∧ text = body ++ ['"'] := by
  have hhead : ¬ ('"' = '-' ∨ isDigit '"' = true) := by decide
  generalize hg : '"' :: text = whole at h
  cases h with
  | word hc _ =>
    rw [← (List.cons.inj hg).1] at hc
    exact absurd (isWordStart_iff.mpr hc) (by decide)
  | integer hs hd =>
    rw [← List.append_nil (_ ++ _)] at hg
    exact absurd hg (ne_number hs hd hhead)
  | float hs hd _ => exact absurd hg (ne_number hs hd hhead)
  | @string body hb => exact ⟨body, hb, (List.cons.inj hg).2⟩
  | mark hm =>
    rw [← hg] at hm
    exact absurd List.mem_cons_self (not_mem_of_mark hm (.inr rfl))

theorem Spelled.of_digits {sign digits rest : List Char} (hs : Sign sign) (hd : Digits digits)
    (hr : EndsRun isDigit rest.head?) (h : Spelled loneCr (sign ++ digits ++ rest) kind) :
    rest = [] ∨ ∃ fraction, Digits fraction ∧ rest = '.' :: fraction := by
  generalize hg : sign ++ digits ++ rest = whole at h
  cases h with
  | word hc _ =>
    exact absurd hg.symm (ne_number hs hd (not_number_head (isWordStart_iff.mpr hc)))
  | @integer sign' digits' hs' hd' =>
    rw [← List.append_nil (sign' ++ digits')] at hg
    exact .inl (number_unique hs hd hr hs' hd' (endsRun_none _) hg).2.2
  | @float sign' digits' fraction hs' hd' hf =>
    have hpoint : EndsRun isDigit (('.' :: fraction).head?) := by simp [isDigit]
    exact .inr ⟨fraction, hf, (number_unique hs hd hr hs' hd' hpoint hg).2.2⟩
  | string _ => exact absurd hg.symm (ne_number hs hd (by decide))
  | mark hm =>
    obtain ⟨d, hmem, hdigit⟩ := hd.exists_mem
    rw [← hg] at hm
    have hin : d ∈ sign ++ digits ++ rest := by simp [hmem]
    exact absurd hin (not_mem_of_mark hm (.inl (isWordChar_of_isDigit hdigit)))

private theorem joinsMark_of_marks (loneCr : Bool) :
    ∀ entry ∈ marks loneCr, ∀ longer ∈ marks loneCr, longer.1.dropLast = entry.1 →
      longer.1.getLast?.any (joinsMark entry.1) = true := by
  cases loneCr <;> decide

private theorem joinsMark_of_number {spelling rest sign digits after : List Char} {d : Char}
    (hm : (spelling, kind) ∈ marks loneCr) (hs : Sign sign) (hd : Digits digits)
    (he : spelling ++ d :: rest = sign ++ digits ++ after) : joinsMark spelling d = true := by
  obtain ⟨e, more, rfl⟩ := List.exists_cons_of_ne_nil hd.1
  have hdigit : isDigit e = true := hd.forall_isDigit e List.mem_cons_self
  have hplain : e ∉ spelling := not_mem_of_mark hm (.inl (isWordChar_of_isDigit hdigit))
  obtain ⟨c, spelling, rfl⟩ := List.exists_cons_of_ne_nil (Spelled.mark hm).ne_nil
  rcases hs with rfl | rfl
  · exact absurd (by simp [(List.cons.inj he).1]) hplain
  · obtain ⟨rfl, htail⟩ := List.cons.inj he
    cases spelling with
    | nil =>
      obtain rfl : d = e := (List.cons.inj htail).1
      simp [joinsMark, hdigit]
    | cons c spelling =>
      obtain rfl : c = e := (List.cons.inj htail).1
      exact absurd (by simp) hplain

/-- A mark that is not a whole lexeme is made longer or turned into a fault by what follows. -/
theorem Spelled.joinsMark_of_mark {spelling rest : List Char} {kind' : TokenKind} {d : Char}
    (hm : (spelling, kind') ∈ marks loneCr) (h : Spelled loneCr (spelling ++ d :: rest) kind) :
    joinsMark spelling d = true := by
  obtain ⟨b, spelling, rfl⟩ := List.exists_cons_of_ne_nil (Spelled.mark hm).ne_nil
  generalize hg : b :: spelling ++ d :: rest = whole at h
  cases h with
  | @word c text hc _ =>
    obtain rfl : b = c := (List.cons.inj hg).1
    have hpart := isWordChar_of_isWordStart (isWordStart_iff.mpr hc)
    exact absurd List.mem_cons_self (not_mem_of_mark hm (.inl hpart))
  | integer hs hd => exact joinsMark_of_number hm hs hd (by rw [hg, List.append_nil])
  | float hs hd _ => exact joinsMark_of_number hm hs hd hg
  | string _ =>
    obtain rfl : b = '"' := (List.cons.inj hg).1
    exact absurd List.mem_cons_self (not_mem_of_mark hm (.inr rfl))
  | mark hlonger =>
    rw [← hg] at hlonger
    have hshort := length_of_mark hlonger
    obtain rfl : rest = [] := by
      rw [← List.length_eq_zero_iff]
      simp only [List.length_append, List.length_cons] at hshort
      omega
    have hjoin := joinsMark_of_marks loneCr _ hm _ hlonger List.dropLast_concat
    rwa [List.getLast?_concat, Option.any_some] at hjoin

end Spellings

section Reading

variable {options : Options} {found : Lexeme}

/-- No lexeme of the grammar continues what was read with the character behind it. -/
theorem Reads.not_spelled {d : Char} (h : Reads options found (some d)) (rest : List Char)
    (kind : TokenKind) : ¬ Spelled options.loneCr (found.text ++ d :: rest) kind := by
  intro hs
  cases h with
  | word hc _ hr =>
    have hpart := hs.of_wordStart hc d (by simp)
    rw [(endsRun_some _ d).mp hr] at hpart
    cases hpart
  | integer hsign hd hv hr hp =>
    obtain rfl := Scan.intLiteral_eq_ok hd.1 hv
    rcases hs.of_digits hsign hd (by simpa using hr) with hnil | ⟨fraction, -, hpoint⟩
    · cases hnil
    · obtain rfl : d = '.' := (List.cons.inj hpoint).1
      exact hp rfl
  | float hsign hd hf hv hr =>
    obtain ⟨value, rfl⟩ := Scan.floatLiteral_eq_ok hv
    simp only [List.append_assoc, List.cons_append] at hs
    rw [← List.append_assoc] at hs
    rcases hs.of_digits hsign hd (by simp [isDigit]) with hnil | ⟨fraction', hf', hpoint⟩
    · cases hnil
    · obtain rfl := (List.cons.inj hpoint).2
      have hdigit := hf'.forall_isDigit d (by simp)
      rw [(endsRun_some _ d).mp hr] at hdigit
      cases hdigit
  | @string body _ hb =>
    change Spelled _ ('"' :: ((body ++ ['"']) ++ d :: rest)) kind at hs
    obtain ⟨body', hb', he⟩ := hs.of_quote
    have hclass {text : List Char} (ht : '"' ∉ text) : ∀ c ∈ text, (c != '"') = true := by
      intro c hc
      exact bne_iff_ne.mpr (ne_of_mem_of_not_mem hc ht)
    rw [List.append_assoc] at he
    have hcut := (run_unique (hclass hb) (by simp) (hclass hb') (by simp) he).2
    cases hcut
  | mark hm hr =>
    have hjoin := hs.joinsMark_of_mark hm
    rw [(endsRun_some _ d).mp hr] at hjoin
    cases hjoin

theorem Reads.longest {rest : List Char} (h : Reads options found rest.head?) :
    Longest options.loneCr found.text (found.text ++ rest) found.kind where
  begins := List.prefix_append _ _
  spelled other :=
    ⟨fun hs => hs.kind_unique h.spelled, fun he => he ▸ h.spelled⟩
  longest longer other hl hs := by
    by_contra hlong
    rw [not_le] at hlong
    -- both are prefixes, so the longer one goes on with the character behind the shorter
    obtain ⟨tail, htail⟩ := List.prefix_of_prefix_length_le (List.prefix_append found.text rest) hl
      hlong.le
    cases tail with
    | nil =>
      rw [← htail, List.append_nil] at hlong
      exact lt_irrefl _ hlong
    | cons d tail =>
      rw [← htail, List.prefix_append_right_inj] at hl
      obtain ⟨more, rfl⟩ := hl
      exact h.not_spelled tail other (htail ▸ hs)

theorem Reads.values {following : Option Char} (h : Reads options found following) :
    (found.intValue.isSome = true ↔ found.kind = .intLiteral) ∧
      (found.floatValue.isSome = true ↔ found.kind = .floatLiteral) := by
  cases h with
  | word hc ht hr =>
    unfold wordKind
    split
    · simp
    · split <;> simp
  | integer hs hd hv hr hp =>
    obtain rfl := Scan.intLiteral_eq_ok hd.1 hv
    simp
  | float hs hd hf hv hr =>
    obtain ⟨value, rfl⟩ := Scan.floatLiteral_eq_ok hv
    simp
  | string hb => simp
  | mark hm hr =>
    have hmarks : ∀ entry ∈ marks options.loneCr,
        entry.2 ≠ .intLiteral ∧ entry.2 ≠ .floatLiteral := by
      cases options.loneCr <;> decide
    simpa using hmarks _ hm

end Reading

section Tokenize

variable {options : Options} {source : List Char} {tokens : List Token} {t : Token}

theorem reads_of_tokenize (h : tokenize options source = .ok tokens) (ht : t ∈ tokens)
    (hk : t.kind ≠ .endOfInput) :
    0 ≤ t.offset ∧
      ∃ rest, source.drop t.start = t.text ++ rest ∧ Reads options t.toLexeme rest.head? := by
  obtain ⟨pieces, hs, rfl⟩ := (tokenize_eq_ok_iff options source).mp h
  rcases mem_layOut options source ht with ⟨done, found, later, rfl, rfl⟩ | rfl
  · obtain ⟨rest, hsource, hr⟩ := Split.reads_of_ofText hs
    have hlen : 0 + extent done ≤ source.length := by
      rw [hsource, Nat.zero_add, List.length_append]
      exact Nat.le_add_right _ _
    refine ⟨Int.natCast_nonneg _, rest, ?_, hr⟩
    rw [start_token options source hlen found, Nat.zero_add, hsource]
    exact List.drop_left
  · exact absurd rfl hk

/-- The number literals of a token list have values. -/
theorem numbers_of_tokenize (h : tokenize options source = .ok tokens) (ht : t ∈ tokens) :
    (t.kind = .intLiteral → ∃ v, t.intValue = some v) ∧
      (t.kind = .floatLiteral → ∃ x, t.floatValue = some x) := by
  by_cases hend : t.kind = .endOfInput
  · simp [hend]
  · obtain ⟨-, rest, -, hreads⟩ := reads_of_tokenize h ht hend
    obtain ⟨hint, hfloat⟩ := hreads.values
    exact ⟨fun hk => Option.isSome_iff_exists.mp (hint.mpr hk),
      fun hk => Option.isSome_iff_exists.mp (hfloat.mpr hk)⟩

theorem text_of_endOfInput (h : tokenize options source = .ok tokens) (ht : t ∈ tokens)
    (hk : t.kind = .endOfInput) : t.text = [] := by
  obtain ⟨pieces, hs, rfl⟩ := (tokenize_eq_ok_iff options source).mp h
  rcases mem_layOut options source ht with ⟨done, found, later, rfl, rfl⟩ | rfl
  · obtain ⟨rest, -, hr⟩ := Split.reads_of_ofText hs
    exact absurd hk hr.spelled.ne_endOfInput
  · rfl

/-- Every token but the last is the longest lexeme at its offset, of that lexeme's kind, and carries
a number exactly if it is a number literal. -/
theorem tokenize_longest (h : tokenize options source = .ok tokens) (ht : t ∈ tokens)
    (hk : t.kind ≠ .endOfInput) :
    0 ≤ t.offset ∧ Longest options.loneCr t.text (source.drop t.offset.toNat) t.kind ∧
      (t.intValue.isSome = true ↔ t.kind = .intLiteral) ∧
      (t.floatValue.isSome = true ↔ t.kind = .floatLiteral) := by
  obtain ⟨hn, rest, hdrop, hr⟩ := reads_of_tokenize h ht hk
  change source.drop t.offset.toNat = _ at hdrop
  rw [hdrop]
  exact ⟨hn, hr.longest, hr.values⟩

/-- The minus sign behind an arrow belongs to a number, which the equality signs do not continue. -/
theorem longest_of_signed_number :
    ∃ tokens t, tokenize { } "->-2.5===".toList = .ok tokens ∧ t ∈ tokens ∧
      t.kind ≠ .endOfInput ∧ t.text = "-2.5".toList ∧ 0 ≤ t.offset ∧
      Longest true t.text ("->-2.5===".toList.drop t.offset.toNat) t.kind ∧
      (t.intValue.isSome = true ↔ t.kind = .intLiteral) ∧
      (t.floatValue.isSome = true ↔ t.kind = .floatLiteral) := by
  obtain ⟨tokens, h, hf⟩ := exists_tokens
    (show (tokenize { } "->-2.5===".toList).toOption.map
      (·[1]?.map fun t => (t.kind, t.text)) = some (some (.floatLiteral, "-2.5".toList)) by
        decide +kernel)
  obtain ⟨t, ht, he⟩ := Option.map_eq_some_iff.mp hf
  obtain ⟨hkind, htext⟩ := Prod.mk.inj he
  have hmem := List.mem_of_getElem? ht
  have hk : t.kind ≠ .endOfInput := by simp [hkind]
  exact ⟨tokens, t, h, hmem, hk, htext, tokenize_longest h hmem hk⟩

end Tokenize

end Lexing
