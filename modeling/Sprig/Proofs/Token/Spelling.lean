import Mathlib.Data.List.TakeWhile
import Sprig.Token.Stream

/-!
Tokens as they are written.

`Token.WellFormed` holds of the tokens that can stand before the end of a text. Each has one
spelling and is read from it again, provided that the text behind it does not make it longer, which
is what `Token.Apart` says. Conversely, a token that was read stands in the text as it is spelled,
behind nothing but blanks. The one exception is a string that the text breaks off: it lacks its
closing quote.
-/

namespace Sprig

open Text

namespace Text

variable {p : Char → Bool} {l r : List Char}

theorem takeWhile_append_of_stop (hl : ∀ c ∈ l, p c) (hr : ∀ c ∈ r.head?, p c = false) :
    (l ++ r).takeWhile p = l ∧ (l ++ r).dropWhile p = r := by
  rw [List.takeWhile_append_of_pos hl, List.dropWhile_append_of_pos hl]
  cases r with
  | nil => simp
  | cons c r => simp [hr c rfl]

theorem head_dropWhile : ∀ c ∈ (l.dropWhile p).head?, p c = false := by
  intro c hc
  have hnot := List.head?_dropWhile_not p l
  rw [Option.mem_def.mp hc] at hnot
  simpa using hnot

theorem plain_of_isAsciiBlank {c : Char} (h : isAsciiBlank c) :
    isWordChar c = false ∧ c.isDigit = false := by
  simp only [isAsciiBlank, Bool.or_eq_true, beq_iff_eq] at h
  rcases h with (((rfl | rfl) | rfl) | rfl) | rfl <;> decide

theorem isAsciiBlank_of_isWordChar {c : Char} (h : isWordChar c) : isAsciiBlank c = false := by
  refine Bool.eq_false_iff.mpr fun hb => ?_
  rw [(plain_of_isAsciiBlank hb).1] at h
  cases h

theorem isAsciiBlank_of_isDigit {c : Char} (h : c.isDigit) : isAsciiBlank c = false := by
  refine Bool.eq_false_iff.mpr fun hb => ?_
  rw [(plain_of_isAsciiBlank hb).2] at h
  cases h

theorem isWordChar_of_isDigit {c : Char} (h : c.isDigit) : isWordChar c = false := by
  -- in the order of the characters, the digits stand before all letters
  have hdigit : c.val ≤ '9'.val := of_decide_eq_true (Bool.and_eq_true_iff.mp h).2
  have hupper : c.isUpper = false :=
    decide_eq_false fun hc => absurd (UInt32.le_trans hc.1 hdigit) (by decide)
  have hlower : c.isLower = false :=
    Bool.and_eq_false_iff.mpr
      (.inl (decide_eq_false fun hc => absurd (UInt32.le_trans hc hdigit) (by decide)))
  have hunderscore : (c == '_') = false := by
    rw [beq_eq_false_iff_ne]
    rintro rfl
    cases h
  show (c.isUpper || c.isLower || c == '_') = false
  rw [hupper, hlower, hunderscore]
  rfl

end Text

namespace Kind

/-- Operators and delimiters. -/
def isSymbol : Kind → Bool
  | assign | plus | minus | bang | star | slash | lt | gt | eq | notEq | comma | semicolon
  | lparen | rparen | lbrace | rbrace | lbracket | rbracket => true
  | _ => false

/-- Identifiers and keywords. -/
def isWord : Kind → Bool
  | ident | kwFn | kwLet | kwTrue | kwFalse | kwIf | kwElse | kwReturn => true
  | _ => false

/-- Whether a token of this kind takes in `c` when it stands directly in front of it. -/
def takes (k : Kind) (c : Char) : Bool :=
  match k with
  | ident | kwFn | kwLet | kwTrue | kwFalse | kwIf | kwElse | kwReturn => isWordChar c
  | int => c.isDigit
  | assign | bang => c == '='
  | _ => false

theorem takes_of_isWord {k : Kind} (h : k.isWord) (c : Char) : k.takes c = isWordChar c := by
  cases k <;> first | rfl | cases h

theorem isWord_ofWord (w : String) : (ofWord w).isWord := by
  unfold ofWord
  cases h : keywords.lookup w with
  | none => rfl
  | some k =>
      obtain ⟨l₁, l₂, hl, -⟩ := List.lookup_eq_some_iff.mp h
      have hmem : (w, k) ∈ keywords := by rw [hl]; simp
      have hall : ∀ p ∈ keywords, p.2.isWord := by decide
      exact hall _ hmem

theorem isSymbol_of_ofSymbol {c : Char} {k : Kind} (h : ofSymbol? c = some k) :
    k.isSymbol ∧ k.label.toList = [c] ∧ isWordChar c = false ∧ c.isDigit = false := by
  revert h
  fun_cases ofSymbol? c
  all_goals
    intro h
    cases h
    try (subst_vars; decide)

theorem ofSymbol_of_isWordChar {c : Char} (h : isWordChar c) : ofSymbol? c = none := by
  refine Option.eq_none_iff_forall_ne_some.mpr fun k hk => ?_
  rw [(isSymbol_of_ofSymbol hk).2.2.1] at h
  cases h

theorem ofSymbol_of_isDigit {c : Char} (h : c.isDigit) : ofSymbol? c = none := by
  refine Option.eq_none_iff_forall_ne_some.mpr fun k hk => ?_
  rw [(isSymbol_of_ofSymbol hk).2.2.2] at h
  cases h

theorem isSymbol_of_withEquals {k k' : Kind} (h : k.withEquals? = some k') :
    k'.isSymbol ∧ k'.label.toList = k.label.toList ++ ['='] ∧ k.takes '=' ∧
      ∀ c, k'.takes c = false := by
  cases k <;> cases h <;> exact ⟨rfl, rfl, rfl, fun _ => rfl⟩

/-- The only operators that take in a character become another one with it. -/
theorem withEquals_of_takes {k : Kind} {c : Char} (hk : k.isSymbol) (h : k.takes c) :
    c = '=' ∧ ∃ k', k.withEquals? = some k' := by
  cases k with
  | assign | bang => exact ⟨beq_iff_eq.mp h, _, rfl⟩
  | _ => first | exact absurd hk Bool.false_ne_true | exact absurd h Bool.false_ne_true

end Kind

namespace Token

/-- The text of a token, with a string between its quotes. -/
def spelling (t : Token) : List Char :=
  if t.kind = .string then '"' :: (t.text.toList ++ ['"']) else t.text.toList

/-- A character that is no part of any other token and separates none. -/
structure Stray (c : Char) : Prop where
  symbol : Kind.ofSymbol? c = none
  quote : c ≠ '"'
  word : isWordChar c = false
  digit : c.isDigit = false
  blank : isAsciiBlank c = false

/-- The tokens that can stand before the end of a text. -/
inductive WellFormed : Token → Prop
  | symbol {k : Kind} (h : k.isSymbol) : WellFormed (symbol k)
  /-- A word with the kind that is looked up for it. -/
  | word {c : Char} {cs : List Char} (h : ∀ a ∈ c :: cs, isWordChar a) :
      WellFormed (word (String.ofList (c :: cs)))
  | int {c : Char} {cs : List Char} (h : ∀ a ∈ c :: cs, a.isDigit) :
      WellFormed ⟨.int, String.ofList (c :: cs)⟩
  | string {cs : List Char} (h : '"' ∉ cs) : WellFormed ⟨.string, String.ofList cs⟩
  | illegal {c : Char} (h : Stray c) : WellFormed ⟨.illegal, String.singleton c⟩

/-- The text behind a token does not make it longer. -/
def Apart (t : Token) (rest : List Char) : Prop :=
  ∀ c ∈ rest.head?, t.kind.takes c = false

theorem Apart.append {t : Token} {r : List Char} (h : t.Apart r) (hr : r ≠ []) (ds : List Char) :
    t.Apart (r ++ ds) := by
  cases r with
  | nil => exact absurd rfl hr
  | cons c r => exact h

theorem WellFormed.kind_ne_eof {t : Token} (h : t.WellFormed) : t.kind ≠ .eof := by
  cases h with
  | @symbol k hk =>
      intro he
      rw [show k = .eof from he] at hk
      cases hk
  | @word c cs =>
      have hw := Kind.isWord_ofWord (String.ofList (c :: cs))
      intro he
      rw [show Kind.ofWord _ = .eof from he] at hw
      cases hw
  | int | string | illegal => exact Kind.noConfusion

theorem WellFormed.ne_eof {t : Token} (h : t.WellFormed) : t ≠ eof :=
  fun he => h.kind_ne_eof (congrArg Token.kind he)

theorem WellFormed.letters {s : String} (h : WellFormed ⟨.ident, s⟩) :
    ∃ c cs, s = String.ofList (c :: cs) ∧ isWordChar c := by
  generalize ht : (⟨.ident, s⟩ : Token) = t at h
  cases h with
  | @symbol k hk =>
      rw [← show Kind.ident = k from congrArg Token.kind ht] at hk
      cases hk
  | @word c cs hw => exact ⟨c, cs, congrArg Token.text ht, hw c List.mem_cons_self⟩
  | int | string | illegal => cases congrArg Token.kind ht

theorem WellFormed.digits {s : String} (h : WellFormed ⟨.int, s⟩) :
    ∃ c cs, s = String.ofList (c :: cs) ∧ ∀ a ∈ c :: cs, a.isDigit := by
  generalize ht : (⟨.int, s⟩ : Token) = t at h
  cases h with
  | @symbol k hk =>
      rw [← show Kind.int = k from congrArg Token.kind ht] at hk
      cases hk
  | @word c cs hw =>
      have hk := Kind.isWord_ofWord (String.ofList (c :: cs))
      rw [← show Kind.int = Kind.ofWord _ from congrArg Token.kind ht] at hk
      cases hk
  | @int c cs hd => exact ⟨c, cs, congrArg Token.text ht, hd⟩
  | string | illegal => cases congrArg Token.kind ht

section Reading

variable {t : Token} {cs ds r : List Char}

theorem scan_cons {c : Char} (hc : isAsciiBlank c = false) (cs : List Char) :
    scan (c :: cs) = scanFrom c cs := by
  rw [scan, List.dropWhile_cons_of_neg (by simp [hc])]

theorem scan_blanks {b : List Char} (hb : ∀ c ∈ b, isAsciiBlank c) (cs : List Char) :
    scan (b ++ cs) = scan cs := by
  rw [scan, scan, List.dropWhile_append_of_pos hb]

theorem scanFrom_symbol {c : Char} {k : Kind} (h : Kind.ofSymbol? c = some k)
    (ha : (symbol k).Apart r) : scanFrom c r = (symbol k, r) := by
  simp only [scanFrom, h]
  split
  · next k' rest hk' =>
      have htakes : k.takes '=' = false := ha '=' rfl
      rw [(Kind.isSymbol_of_withEquals hk').2.2.1] at htakes
      cases htakes
  · rfl

theorem spelling_symbol {k : Kind} (h : k.isSymbol) : (symbol k).spelling = k.label.toList := by
  cases k <;> first | rfl | cases h

theorem spelling_word (cs : List Char) : (word (String.ofList cs)).spelling = cs := by
  have hk := Kind.isWord_ofWord (String.ofList cs)
  rw [spelling, if_neg, word, String.toList_ofList]
  intro he
  rw [show Kind.ofWord _ = .string from he] at hk
  cases hk

theorem spelling_int (cs : List Char) : spelling ⟨.int, String.ofList cs⟩ = cs :=
  String.toList_ofList

theorem spelling_string (cs : List Char) :
    spelling ⟨.string, String.ofList cs⟩ = '"' :: (cs ++ ['"']) := by
  rw [spelling, if_pos rfl, String.toList_ofList]

theorem spelling_illegal (c : Char) : spelling ⟨.illegal, String.singleton c⟩ = [c] :=
  String.toList_singleton c

theorem scan_symbol {k : Kind} (h : k.isSymbol) (ha : (symbol k).Apart r) :
    scan ((symbol k).spelling ++ r) = (symbol k, r) := by
  cases k with
  | eq | notEq => rfl
  | _ => first | exact (scan_cons rfl r).trans (scanFrom_symbol rfl ha) | cases h

theorem scanFrom_word {c : Char} (h : ∀ a ∈ c :: cs, isWordChar a)
    (hr : ∀ a ∈ r.head?, isWordChar a = false) :
    scanFrom c (cs ++ r) = (word (String.ofList (c :: cs)), r) := by
  obtain ⟨hc, hcs⟩ := List.forall_mem_cons.mp h
  obtain ⟨htake, hdrop⟩ := takeWhile_append_of_stop hcs hr
  have hq : c ≠ '"' := by rintro rfl; cases hc
  simp only [scanFrom, Kind.ofSymbol_of_isWordChar hc, if_neg hq, if_pos hc, htake, hdrop]

theorem scanFrom_int {c : Char} (h : ∀ a ∈ c :: cs, a.isDigit)
    (hr : ∀ a ∈ r.head?, a.isDigit = false) :
    scanFrom c (cs ++ r) = (⟨.int, String.ofList (c :: cs)⟩, r) := by
  obtain ⟨hc, hcs⟩ := List.forall_mem_cons.mp h
  obtain ⟨htake, hdrop⟩ := takeWhile_append_of_stop hcs hr
  have hq : c ≠ '"' := by rintro rfl; cases hc
  have hw : ¬ isWordChar c := by rw [isWordChar_of_isDigit hc]; exact Bool.false_ne_true
  simp only [scanFrom, Kind.ofSymbol_of_isDigit hc, if_neg hq, if_neg hw, if_pos hc, htake, hdrop]

theorem scanFrom_string (h : '"' ∉ cs) :
    scanFrom '"' (cs ++ '"' :: r) = (⟨.string, String.ofList cs⟩, r) := by
  obtain ⟨htake, hdrop⟩ := takeWhile_append_of_stop (p := (· ≠ '"')) (l := cs) (r := '"' :: r)
    (fun a ha => by rw [decide_eq_true_eq]; rintro rfl; exact h ha) (by simp)
  show (_, _) = _
  rw [htake, hdrop, List.tail_cons]

theorem scanFrom_illegal {c : Char} (h : Stray c) :
    scanFrom c r = (⟨.illegal, String.singleton c⟩, r) := by
  simp [scanFrom, h.symbol, h.quote, h.word, h.digit]

/-- A token is read from its spelling. -/
theorem WellFormed.scan (h : t.WellFormed) (ha : t.Apart r) : scan (t.spelling ++ r) = (t, r) := by
  cases h with
  | symbol hk => exact scan_symbol hk ha
  | @word c cs hw =>
      rw [spelling_word, List.cons_append, scan_cons (isAsciiBlank_of_isWordChar (hw c (by simp)))]
      refine scanFrom_word hw fun a har => ?_
      exact (Kind.takes_of_isWord (Kind.isWord_ofWord _) a).symm.trans (ha a har)
  | @int c cs hd =>
      rw [spelling_int, List.cons_append, scan_cons (isAsciiBlank_of_isDigit (hd c (by simp)))]
      exact scanFrom_int hd ha
  | @string cs hq =>
      rw [spelling_string, List.cons_append, List.append_assoc, List.singleton_append]
      exact (scan_cons rfl _).trans (scanFrom_string hq)
  | @illegal c hc =>
      rw [spelling_illegal, List.singleton_append, scan_cons hc.blank]
      exact scanFrom_illegal hc

/-- The text `cs` starts with the token `t`, which is as long as it gets, and goes on with `r`. -/
structure Fronts (t : Token) (cs r : List Char) : Prop where
  wellFormed : t.WellFormed
  apart : t.Apart r
  /-- A string at the end of the text may lack its closing quote. -/
  spelled : cs = t.spelling ++ r ∨ t.kind = .string ∧ cs = '"' :: t.text.toList ∧ r = []

theorem fronts_symbol {c : Char} {k : Kind} (hk : Kind.ofSymbol? c = some k)
    (h : scanFrom c cs = (t, r)) : t.Fronts (c :: cs) r := by
  obtain ⟨hsym, hlabel, -⟩ := Kind.isSymbol_of_ofSymbol hk
  simp only [scanFrom, hk] at h
  split at h
  · next k' rest hk' =>
      cases h
      obtain ⟨hsym', hlabel', -, hnone⟩ := Kind.isSymbol_of_withEquals hk'
      refine ⟨.symbol hsym', fun a _ => hnone a, .inl ?_⟩
      rw [spelling_symbol hsym', hlabel', hlabel]
      rfl
  · next hno =>
      cases h
      refine ⟨.symbol hsym, fun a ha => ?_, .inl ?_⟩
      · by_contra htakes
        rw [Bool.not_eq_false] at htakes
        obtain ⟨rfl, k', hk'⟩ := Kind.withEquals_of_takes hsym htakes
        obtain ⟨rest, hrest⟩ := List.head?_eq_some_iff.mp ha
        exact hno k' rest hk' hrest
      · rw [spelling_symbol hsym, hlabel]
        rfl

theorem fronts_string : Fronts ⟨.string, String.ofList (cs.takeWhile (· ≠ '"'))⟩ ('"' :: cs)
    (cs.dropWhile (· ≠ '"')).tail := by
  refine ⟨.string ?_, fun a _ => rfl, ?_⟩
  · intro hmem
    simpa using List.mem_takeWhile_imp hmem
  · have hcs := List.takeWhile_append_dropWhile (p := (· ≠ '"')) (l := cs)
    cases hr : cs.dropWhile (· ≠ '"') with
    | nil =>
        rw [hr, List.append_nil] at hcs
        exact .inr ⟨rfl, by rw [hcs, String.toList_ofList], rfl⟩
    | cons q rest =>
        have hq : decide (q ≠ '"') = false := head_dropWhile q (by rw [hr]; rfl)
        have hq : q = '"' := by simpa using hq
        rw [hr, hq] at hcs
        refine .inl ?_
        rw [spelling_string, List.cons_append, List.append_assoc, List.tail_cons,
          List.singleton_append, hcs]

theorem fronts_word {c : Char} (hc : isWordChar c) :
    Fronts (word (String.ofList (c :: cs.takeWhile isWordChar))) (c :: cs)
      (cs.dropWhile isWordChar) := by
  refine ⟨.word (List.forall_mem_cons.mpr ⟨hc, fun a ha => List.mem_takeWhile_imp ha⟩), ?_, .inl ?_⟩
  · intro a ha
    exact (Kind.takes_of_isWord (Kind.isWord_ofWord _) a).trans (head_dropWhile a ha)
  · rw [spelling_word, List.cons_append, List.takeWhile_append_dropWhile]

theorem fronts_int {c : Char} (hc : c.isDigit) :
    Fronts ⟨.int, String.ofList (c :: cs.takeWhile Char.isDigit)⟩ (c :: cs)
      (cs.dropWhile Char.isDigit) := by
  refine ⟨.int (List.forall_mem_cons.mpr ⟨hc, fun a ha => List.mem_takeWhile_imp ha⟩),
    head_dropWhile, .inl ?_⟩
  rw [spelling_int, List.cons_append, List.takeWhile_append_dropWhile]

theorem scanFrom_fronts {c : Char} (hc : isAsciiBlank c = false) (h : scanFrom c cs = (t, r)) :
    t.Fronts (c :: cs) r := by
  cases hsym : Kind.ofSymbol? c with
  | some k => exact fronts_symbol hsym h
  | none =>
      simp only [scanFrom, hsym] at h
      split at h
      · next hq =>
          cases h
          rw [hq]
          exact fronts_string
      · next hq =>
          split at h
          · next hw =>
              cases h
              exact fronts_word hw
          · next hw =>
              split at h
              · next hd =>
                  cases h
                  exact fronts_int hd
              · next hd =>
                  cases h
                  rw [Bool.not_eq_true] at hw hd
                  exact ⟨.illegal ⟨hsym, hq, hw, hd, hc⟩, fun _ _ => rfl,
                    .inl (by rw [spelling_illegal, List.singleton_append])⟩

/-- Behind blanks, the text starts with the token that is read from it. -/
theorem scan_fronts (h : scan cs = (t, r)) (ht : t ≠ eof) :
    ∃ b s, (∀ c ∈ b, isAsciiBlank c) ∧ cs = b ++ s ∧ t.Fronts s r := by
  rw [scan] at h
  refine ⟨cs.takeWhile isAsciiBlank, cs.dropWhile isAsciiBlank,
    fun c hc => List.mem_takeWhile_imp hc, List.takeWhile_append_dropWhile.symm, ?_⟩
  split at h
  · cases h
    exact absurd rfl ht
  · next c rest hrest =>
      rw [hrest]
      exact scanFrom_fronts (head_dropWhile c (by rw [hrest]; rfl)) h

/-- A token stays the same in front of more text, if text behind it keeps it from taking more, or if
no text could. -/
theorem scan_append (h : scan cs = (t, r)) (ht : t ≠ eof) (hr : r ≠ [] ∨ t.kind = .semicolon)
    (ds : List Char) : scan (cs ++ ds) = (t, r ++ ds) := by
  obtain ⟨b, s, hb, rfl, hf⟩ := scan_fronts h ht
  have hs : s = t.spelling ++ r := by
    rcases hf.spelled with hs | ⟨hk, -, hnil⟩
    · exact hs
    · rcases hr with hr | hsc
      · exact absurd hnil hr
      · cases hk.symm.trans hsc
  have ha : t.Apart (r ++ ds) := by
    rcases hr with hr | hsc
    · exact hf.apart.append hr ds
    · intro c _
      rw [hsc]
      rfl
  rw [List.append_assoc, scan_blanks hb, hs, List.append_assoc]
  exact hf.wellFormed.scan ha

theorem stream_of_scan (h : scan cs = (t, r)) (ht : t ≠ eof) : stream cs = t :: stream r := by
  rw [stream, dif_neg (by rwa [h]), h]

theorem stream_of_end (h : (scan cs).1 = eof) : stream cs = [eof] := by
  rw [stream, dif_pos h]

/-- The first token of several was read from the front of the text. -/
theorem scan_of_stream {ts : List Token} (h : stream cs = t :: ts) (hts : ts ≠ []) :
    ∃ r, scan cs = (t, r) ∧ t ≠ eof ∧ stream r = ts := by
  by_cases he : (scan cs).1 = eof
  · rw [stream_of_end he] at h
    cases h
    exact absurd rfl hts
  · rw [stream_of_scan (Prod.eta _).symm he] at h
    cases h
    exact ⟨_, (Prod.eta _).symm, he, rfl⟩

theorem stream_blanks {b : List Char} (hb : ∀ c ∈ b, isAsciiBlank c) (cs : List Char) :
    stream (b ++ cs) = stream cs := by
  rw [stream, scan_blanks hb, ← stream]

theorem stream_space (r : List Char) : stream (' ' :: r) = stream r :=
  stream_blanks (b := [' ']) (fun c hc => by cases List.mem_singleton.mp hc; rfl) r

theorem WellFormed.stream (h : t.WellFormed) (ha : t.Apart r) :
    stream (t.spelling ++ r) = t :: stream r :=
  stream_of_scan (h.scan ha) h.ne_eof

/-- Before its last token, which marks the end, a text has only well-formed ones. -/
theorem stream_wellFormed (cs : List Char) :
    ∃ ts, stream cs = ts ++ [eof] ∧ ∀ t ∈ ts, t.WellFormed := by
  induction cs using stream.induct with
  | case1 cs h => exact ⟨[], stream_of_end h, by simp⟩
  | case2 cs h ih =>
      obtain ⟨ts, hts, hall⟩ := ih
      obtain ⟨b, s, -, -, hf⟩ := scan_fronts (Prod.eta _).symm h
      refine ⟨(scan cs).1 :: ts, ?_, List.forall_mem_cons.mpr ⟨hf.wellFormed, hall⟩⟩
      rw [stream_of_scan (Prod.eta _).symm h, hts, List.cons_append]

/-- Nothing but blanks marks the end of a text. -/
theorem blanks_of_scan (h : (scan cs).1 = eof) : ∀ c ∈ cs, isAsciiBlank c := by
  rw [scan] at h
  split at h
  · next hnil => exact List.dropWhile_eq_nil_iff.mp hnil
  · next c rest hrest =>
      have hf : (scanFrom c rest).1.Fronts (c :: rest) (scanFrom c rest).2 :=
        scanFrom_fronts (head_dropWhile c (by rw [hrest]; rfl)) (Prod.eta _).symm
      exact absurd h hf.wellFormed.ne_eof

/-- A text behind a `;` is read as if it stood alone. -/
theorem stream_append {ts : List Token} {sc : Token} (hsc : sc.kind = .semicolon)
    (h : stream cs = ts ++ [sc, eof]) (ds : List Char) :
    stream (cs ++ ds) = ts ++ sc :: stream ds := by
  induction ts generalizing cs with
  | nil =>
      obtain ⟨r, hscan, hne, hr⟩ := scan_of_stream h (List.cons_ne_nil _ _)
      have hend : (scan r).1 = eof := by
        rw [stream] at hr
        split at hr
        · next he => exact he
        · exact (List.cons.inj hr).1
      rw [stream_of_scan (scan_append hscan hne (.inr hsc) ds) hne, List.nil_append,
        stream_blanks (blanks_of_scan hend)]
  | cons t ts ih =>
      obtain ⟨r, hscan, hne, hr⟩ := scan_of_stream h (by simp)
      have hnil : r ≠ [] := by
        rintro rfl
        have hlen := congrArg List.length hr
        rw [stream_of_end rfl] at hlen
        simp at hlen
      rw [stream_of_scan (scan_append hscan hne (.inl hnil) ds) hne, ih hr, List.cons_append]

end Reading

end Token

end Sprig
