import Sprig.Proofs.Token.Spelling

/-!
Reading undoes printing.

`Token.isPrintable` says of each kind of token which texts it can have. These are exactly the tokens
that a lexer yields before it comes to the end. Printed one after another, with a space between any
two, they are read again as they were.
-/

namespace Sprig

open Text

namespace Text

/-- The characters that operators and delimiters are made of. -/
def symbolChars : List Char :=
  ['=', '+', '-', '!', '*', '/', '<', '>', ',', ';', '(', ')', '\x7b', '\x7d', '[', ']']

/-- A character that is no part of any other token and separates none. -/
def isStray (c : Char) : Bool :=
  !(isAsciiBlank c || isWordChar c || c.isDigit || symbolChars.contains c || c == '"')

end Text

theorem Kind.ofSymbol_eq_none {c : Char} : ofSymbol? c = none ↔ c ∉ symbolChars := by
  fun_cases ofSymbol? c <;> simp_all [symbolChars]

theorem Text.isStray_iff {c : Char} : isStray c ↔ Token.Stray c := by
  simp only [isStray, Bool.not_eq_true', Bool.or_eq_false_iff, beq_eq_false_iff_ne,
    List.contains_eq_mem, decide_eq_false_iff_not]
  constructor
  · rintro ⟨⟨⟨⟨hblank, hword⟩, hdigit⟩, hsymbol⟩, hquote⟩
    exact ⟨Kind.ofSymbol_eq_none.mpr hsymbol, hquote, hword, hdigit, hblank⟩
  · intro h
    exact ⟨⟨⟨⟨h.blank, h.word⟩, h.digit⟩, Kind.ofSymbol_eq_none.mp h.symbol⟩, h.quote⟩

namespace Token

/-- The text fits the kind. Operators and delimiters have their own text and keywords their word. A
name is a word other than these, and a number is made of digits. A string has no quote in it, and
what is illegal is a single character that has no other use. The end of a text is never printed. -/
def isPrintable (t : Token) : Bool :=
  let cs := t.text.toList
  match t.kind with
  | .eof => false
  | .ident => !cs.isEmpty && cs.all isWordChar && (Kind.keywords.lookup t.text).isNone
  | .int => !cs.isEmpty && cs.all Char.isDigit
  | .string => !cs.contains '"'
  | .illegal => cs.length == 1 && cs.all isStray
  | k => if k.isSymbol then t.text == k.label else Kind.keywords.contains (t.text, k)

theorem isPrintable_symbol {k : Kind} (hk : k.isSymbol) (s : String) :
    isPrintable ⟨k, s⟩ = (s == k.label) := by
  cases k <;> first | rfl | cases hk

theorem keywords_spec : ∀ p ∈ Kind.keywords, Kind.ofWord p.1 = p.2 ∧ isPrintable ⟨p.2, p.1⟩ ∧
    (!p.1.toList.isEmpty && p.1.toList.all isWordChar) := by
  decide

theorem wellFormed_word {k : Kind} {w : String} (hk : Kind.ofWord w = k)
    (hw : !w.toList.isEmpty && w.toList.all isWordChar) : WellFormed ⟨k, w⟩ := by
  obtain ⟨hne, hall⟩ := Bool.and_eq_true_iff.mp hw
  rw [← hk, ← w.ofList_toList]
  cases hcs : w.toList with
  | nil =>
      rw [hcs] at hne
      cases hne
  | cons c cs =>
      rw [hcs] at hall
      exact .word (List.all_eq_true.mp hall)

theorem WellFormed.isPrintable {t : Token} (h : t.WellFormed) : t.isPrintable := by
  cases h with
  | symbol hk =>
      rw [Token.symbol, isPrintable_symbol hk]
      exact beq_self_eq_true _
  | @word c cs hw =>
      cases hk : Kind.keywords.lookup (String.ofList (c :: cs)) with
      | none =>
          rw [Token.word, Kind.ofWord, hk]
          simp only [Token.isPrintable, Option.getD_none, hk, String.toList_ofList,
            List.all_eq_true.mpr hw]
          rfl
      | some k =>
          obtain ⟨l₁, l₂, hl, -⟩ := List.lookup_eq_some_iff.mp hk
          have hmem : (String.ofList (c :: cs), k) ∈ Kind.keywords := by rw [hl]; simp
          rw [Token.word, (keywords_spec _ hmem).1]
          exact (keywords_spec _ hmem).2.1
  | @int c cs hd =>
      simp only [Token.isPrintable, String.toList_ofList, List.all_eq_true.mpr hd]
      rfl
  | @string cs hq => simpa [Token.isPrintable] using hq
  | @illegal c hc =>
      simp only [Token.isPrintable, String.toList_singleton, List.all_cons, isStray_iff.mpr hc]
      rfl

theorem wellFormed_of_isPrintable {t : Token} (h : t.isPrintable) : t.WellFormed := by
  obtain ⟨k, s⟩ := t
  by_cases hsym : k.isSymbol
  · rw [isPrintable_symbol hsym, beq_iff_eq] at h
    rw [h]
    exact .symbol hsym
  · cases k with
    | eof => cases h
    | ident =>
        obtain ⟨hw, hk⟩ := Bool.and_eq_true_iff.mp h
        refine wellFormed_word ?_ hw
        rw [Kind.ofWord, Option.isNone_iff_eq_none.mp hk]
        rfl
    | int =>
        obtain ⟨hne, hall⟩ := Bool.and_eq_true_iff.mp h
        rw [← s.ofList_toList]
        cases hcs : s.toList with
        | nil =>
            rw [show (_ : Token).text.toList = [] from hcs] at hne
            cases hne
        | cons c cs =>
            rw [show (_ : Token).text.toList = c :: cs from hcs] at hall
            exact .int (List.all_eq_true.mp hall)
    | string =>
        rw [← s.ofList_toList]
        exact .string (by simpa [isPrintable] using h)
    | illegal =>
        obtain ⟨hone, hall⟩ := Bool.and_eq_true_iff.mp h
        obtain ⟨c, hc⟩ := List.length_eq_one_iff.mp (beq_iff_eq.mp hone)
        rw [hc] at hall
        rw [← s.ofList_toList, show s.toList = [c] from hc]
        exact .illegal (isStray_iff.mp (List.all_eq_true.mp hall c List.mem_cons_self))
    | kwFn | kwLet | kwTrue | kwFalse | kwIf | kwElse | kwReturn =>
        obtain ⟨hk, -, hw⟩ := keywords_spec _ (List.contains_iff_mem.mp h)
        exact wellFormed_word hk hw
    | _ => exact absurd rfl hsym

theorem isPrintable_iff {t : Token} : t.isPrintable ↔ t.WellFormed :=
  ⟨wellFormed_of_isPrintable, WellFormed.isPrintable⟩

/-- Tokens as a text: each as it is spelled, with a space between any two. -/
def printed (ts : List Token) : String :=
  " ".intercalate (ts.map fun t => String.ofList t.spelling)

theorem toList_printed (ts : List Token) :
    (printed ts).toList = [' '].intercalate (ts.map spelling) := by
  rw [printed, String.toList_intercalate, List.map_map]
  congr 1
  exact List.map_congr_left fun t _ => String.toList_ofList

theorem apart_space (t : Token) (r : List Char) : t.Apart (' ' :: r) := by
  intro c hc
  cases hc
  cases t.kind <;> rfl

theorem stream_printed {ts : List Token} (h : ∀ t ∈ ts, t.WellFormed) :
    stream (printed ts).toList = ts ++ [eof] := by
  rw [toList_printed]
  induction ts with
  | nil => exact stream_of_end rfl
  | cons t ts ih =>
      obtain ⟨ht, hts⟩ := List.forall_mem_cons.mp h
      cases ts with
      | nil =>
          rw [List.map_singleton, List.intercalate_singleton, ← List.append_nil t.spelling,
            ht.stream (fun c hc => by cases hc), stream_of_end rfl]
          rfl
      | cons u us =>
          rw [List.map_cons, List.map_cons, List.intercalate_cons_cons, List.append_assoc,
            List.singleton_append, ht.stream (t.apart_space _), stream_space, ← List.map_cons,
            ih hts]
          rfl

end Token

namespace Lexer

/-- The lexer that is left after `n` calls of `next?`. -/
def after (l : Lexer) : Nat → Lexer
  | 0 => l
  | n + 1 => l.next?.2.after n

/-- What call number `n` of `next?` answers, counted from zero. -/
def answer (l : Lexer) (n : Nat) : Option Token :=
  (l.after n).next?.1

/-- Read to its end, the lexer gives these tokens, and nothing any more after them. -/
def Yields (l : Lexer) (ts : List Token) : Prop :=
  ∀ n, l.answer n = ts[n]?

variable {l : Lexer}

theorem next_of_finished (h : l.finished) : l.next? = (none, l) := by
  rw [next?, if_pos h]

theorem next_of_unfinished (h : l.finished = false) : l.next? =
    (some (Token.scan l.rest).1, ⟨(Token.scan l.rest).2, (Token.scan l.rest).1.kind == .eof⟩) := by
  rw [next?, if_neg (by rw [h]; exact Bool.false_ne_true)]
  rfl

theorem yields_of_finished (h : l.finished) : l.Yields [] := by
  intro n
  have hafter : l.after n = l := by
    induction n with
    | zero => rfl
    | succ n ih => rw [after, next_of_finished h, ih]
  rw [answer, hafter, next_of_finished h]
  rfl

theorem yields_cons {t : Token} {ts : List Token} (ht : l.next?.1 = some t)
    (hts : l.next?.2.Yields ts) : l.Yields (t :: ts) := by
  intro n
  cases n with
  | zero => exact ht
  | succ n => exact hts n

theorem yields_stream (h : l.finished = false) : l.Yields (Token.stream l.rest) := by
  obtain ⟨cs, finished⟩ := l
  cases h
  induction cs using Token.stream.induct with
  | case1 cs hend =>
      rw [Token.stream_of_end hend]
      have hnext := next_of_unfinished (l := ⟨cs, false⟩) rfl
      refine yields_cons (by rw [hnext, hend]) (yields_of_finished ?_)
      rw [hnext, hend]
      rfl
  | case2 cs hne ih =>
      rw [Token.stream_of_scan (Prod.eta _).symm hne]
      have hnext := next_of_unfinished (l := ⟨cs, false⟩) rfl
      obtain ⟨_, _, _, _, hf⟩ := Token.scan_fronts (Prod.eta _).symm hne
      have hkind : ((Token.scan cs).1.kind == .eof) = false :=
        beq_eq_false_iff_ne.mpr hf.wellFormed.kind_ne_eof
      refine yields_cons (by rw [hnext]) ?_
      rw [hnext, hkind]
      exact ih

theorem yields_ofText (source : String) : (ofText source).Yields (Token.ofText source) :=
  yields_stream rfl

end Lexer

/-- A lexer that reads printed tokens yields these, the end, and nothing more. On any text, it
yields printable tokens, the end, and nothing more. -/
theorem lexer_undoes_printing :
    (∀ ts : List Token, (∀ t ∈ ts, t.isPrintable) →
      (Lexer.ofText (Token.printed ts)).Yields (ts ++ [.eof])) ∧
    ∀ source : String, ∃ ts : List Token, (∀ t ∈ ts, t.isPrintable) ∧
      (Lexer.ofText source).Yields (ts ++ [.eof]) := by
  constructor
  · intro ts hts
    rw [← Token.stream_printed fun t ht => Token.isPrintable_iff.mp (hts t ht)]
    exact Lexer.yields_ofText _
  · intro source
    obtain ⟨ts, hstream, hts⟩ := Token.stream_wellFormed source.toList
    refine ⟨ts, fun t ht => Token.isPrintable_iff.mpr (hts t ht), ?_⟩
    rw [← hstream]
    exact Lexer.yields_ofText source

/-- `!` and `=` stay apart, `letter` is no keyword, and blanks in a string are kept. -/
theorem lexer_undoes_printing_mixed :
    let ts : List Token := [.word "let", .word "letter", .symbol .bang, .symbol .assign,
      ⟨.string, "a  b"⟩, ⟨.illegal, "@"⟩, ⟨.int, "007"⟩]
    (∀ t ∈ ts, t.isPrintable) ∧ Token.printed ts = "let letter ! = \"a  b\" @ 007" ∧
      (Lexer.ofText (Token.printed ts)).Yields (ts ++ [.eof]) := by
  intro ts
  have hts : ∀ t ∈ ts, t.isPrintable := by decide +kernel
  exact ⟨hts, by decide +kernel, lexer_undoes_printing.1 ts hts⟩

end Sprig
