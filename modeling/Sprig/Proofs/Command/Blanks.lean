import Sprig.Command.Repl
import Sprig.Proofs.Grammar.Tables
import Sprig.Proofs.Token.Partition

/-!
Blank lines in the interactive loop.

The loop passes over a line that is blank without running it. Running it would change nothing in the
session, but two rules of blankness meet here. A line of separators has no tokens and nothing to
show. A line that is blank and holds some other character, such as a vertical tab or a no-break
space, has a stray token for each of these, and running it would be answered by a diagnostic about
the first one. So the loop shows what running every line would show, less these answers.
-/

namespace Sprig

open Text Sprig.Parser

namespace Text

/-- Nothing but blanks that separate tokens. -/
def isSeparator (line : String) : Bool :=
  line.toList.all isAsciiBlank

theorem toNat_of_isBlank {c : Char} (h : isBlank c) : c.toNat ≤ 0x20 ∨ 0x85 ≤ c.toNat := by
  simp only [isBlank, Bool.or_eq_true, Bool.and_eq_true, decide_eq_true_eq, beq_iff_eq] at h
  omega

theorem toNat_of_isWordChar {c : Char} (h : isWordChar c) : 0x41 ≤ c.toNat ∧ c.toNat ≤ 0x7a := by
  change (c.isUpper || c.isLower || c == '_') = true at h
  simp only [Bool.or_eq_true, beq_iff_eq] at h
  rcases h with (h | h) | rfl
  · have hupper : 0x41 ≤ c.toNat ∧ c.toNat ≤ 0x5a := of_decide_eq_true h
    omega
  · have hlower : 0x61 ≤ c.toNat ∧ c.toNat ≤ 0x7a :=
      (Bool.and_eq_true_iff.mp h).imp of_decide_eq_true of_decide_eq_true
    omega
  · decide

theorem toNat_of_isDigit {c : Char} (h : c.isDigit) : 0x30 ≤ c.toNat ∧ c.toNat ≤ 0x39 :=
  (Bool.and_eq_true_iff.mp h).imp of_decide_eq_true of_decide_eq_true

/-- A blank that does not separate tokens belongs to no token either. -/
theorem stray_of_isBlank {c : Char} (h : isBlank c) (hb : isAsciiBlank c = false) :
    Token.Stray c := by
  have hrange := toNat_of_isBlank h
  have hsymbol : symbolChars.all fun a => !isBlank a := by decide
  refine ⟨Kind.ofSymbol_eq_none.mpr fun hc => ?_, ?_, ?_, ?_, hb⟩
  · have hblank := List.all_eq_true.mp hsymbol c hc
    rw [h] at hblank
    cases hblank
  · rintro rfl
    cases h
  · refine Bool.eq_false_iff.mpr fun hw => ?_
    have := toNat_of_isWordChar hw
    omega
  · refine Bool.eq_false_iff.mpr fun hd => ?_
    have := toNat_of_isDigit hd
    omega

end Text

namespace Token

/-- The tokens of a blank text: each character that is no separator is one. -/
theorem stream_of_isBlank {cs : List Char} (h : ∀ c ∈ cs, isBlank c) :
    stream cs = (cs.filter fun c => !isAsciiBlank c).map
      (fun c => ⟨.illegal, String.singleton c⟩) ++ [eof] := by
  induction cs with
  | nil => exact stream_of_end rfl
  | cons c cs ih =>
      obtain ⟨hc, hcs⟩ := List.forall_mem_cons.mp h
      cases hb : isAsciiBlank c with
      | true =>
          rw [List.filter_cons_of_neg (by simp [hb]), ← ih hcs]
          exact stream_blanks (b := [c]) (fun a ha => by rwa [List.mem_singleton.mp ha]) cs
      | false =>
          have hscan : scan (c :: cs) = (⟨.illegal, String.singleton c⟩, cs) :=
            (scan_cons hb cs).trans (scanFrom_illegal (stray_of_isBlank hc hb))
          rw [List.filter_cons_of_pos (by simp [hb]), List.map_cons, List.cons_append, ← ih hcs]
          exact stream_of_scan hscan fun he => Kind.noConfusion (congrArg Token.kind he)

end Token

namespace Cursor

/-- Recovery passes over stray tokens. -/
theorem skipFrom_illegal {ts : List Token} (h : ∀ t ∈ ts, t.kind = .illegal) :
    skipFrom 0 (ts ++ [.eof]) 0 = ([.eof], 0) := by
  induction ts with
  | nil => rfl
  | cons t ts ih =>
      obtain ⟨ht, hts⟩ := List.forall_mem_cons.mp h
      have hnext : Token.kindOf (ts ++ [.eof]) = .illegal ∨ Token.kindOf (ts ++ [.eof]) = .eof := by
        cases ts with
        | nil => exact .inr rfl
        | cons u us => exact .inl (hts u List.mem_cons_self)
      have hb : isBoundary 0 t (ts ++ [.eof]) 0 = false := by
        rcases hnext with hk | hk <;> rw [isBoundary, ht, hk] <;> rfl
      have hn : (Token.kindOf (ts ++ [.eof])).nest 0 = 0 := by
        rcases hnext with hk | hk <;> rw [hk] <;> rfl
      rw [List.cons_append, skipFrom, hb, hn]
      exact ih hts

end Cursor

/-- No statement starts with a stray token. -/
theorem Nested.statement_of_illegal {c : Cursor} (h : c.kind = .illegal) (n : Nat) :
    (within (n + 1)).statement c = (none, c.record (.noOperand .illegal)) := by
  have hexpr : (within (n + 1)).expr .lowest c = (none, c.record (.noOperand .illegal)) := by
    show (within n).expression (n + 1) .lowest c = _
    rw [expression, bind_apply, operand_of_not_starts _ (by rw [h]; rfl), h]
  rw [statement_of_other _ (by rw [h]; decide) (by rw [h]; decide) (by rw [h]; decide), bare,
    bind_apply, hexpr]

/-- Stray tokens alone make no statement, and the first of them is complained about. -/
theorem Parsed.ofTokens_illegal {t : Token} {ts : List Token}
    (h : ∀ u ∈ t :: ts, u.kind = .illegal) :
    ofTokens (t :: ts ++ [.eof]) = ⟨⟨[]⟩, #[.noOperand .illegal]⟩ := by
  have ht : t.kind = .illegal := h t List.mem_cons_self
  have hkind : (Cursor.start (t :: ts ++ [.eof])).kind = .illegal := ht
  have hdepth : (Cursor.start (t :: ts ++ [.eof])).depth = 0 := by
    show t.kind.nest 0 = 0
    rw [ht]
    rfl
  generalize hd : (Cursor.start (t :: ts ++ [.eof])).record (.noOperand .illegal) = d
  have hskip : Cursor.skipFrom 0 d.rest d.depth = ([.eof], 0) := by
    rw [← hd, Cursor.record_rest, Cursor.record_depth, hdepth]
    exact Cursor.skipFrom_illegal h
  have hrest : (d.recover 0).advance.rest = [] := by
    rw [Cursor.advance_rest]
    exact congrArg (List.tail ∘ Prod.fst) hskip
  have hread : (Nested.within ((t :: ts ++ [Token.eof]).length + 1)).statements
      Nested.endsProgram 0 ((t :: ts ++ [Token.eof]).length + 1)
      (Cursor.start (t :: ts ++ [.eof])) = ([], (d.recover 0).advance) := by
    have hstatement := Nested.statement_of_illegal hkind (t :: ts ++ [Token.eof]).length
    rw [hd] at hstatement
    rw [Nested.statements_of_failed _ (by rw [hkind]; rfl) hstatement, if_neg (Nat.not_lt_zero _)]
    exact Nested.statements_of_stop _ (by rw [Cursor.kind, hrest]; rfl)
  rw [ofTokens_of_statements hread, Cursor.advance_diagnostics, Cursor.recover_diagnostics, ← hd]
  rfl

namespace Session

/-- Nothing printed waits to be handed out. -/
def Idle (s : Session) : Prop := s.store.output = ""

theorem idle_start (limit : Nat) : (start limit).Idle := rfl

/-- Everything that a text prints is handed out with its reply. -/
theorem Idle.run {s : Session} (h : s.Idle) (source : String) : (s.run source).2.Idle := by
  unfold Session.run
  dsimp only
  split
  · exact rfl
  · exact h

theorem run_of_isSeparator {s : Session} (hs : s.Idle) {line : String} (h : isSeparator line) :
    s.run line = (⟨.ok none, ""⟩, s) := by
  have hparsed : Parsed.ofText line = ⟨⟨[]⟩, #[]⟩ := by
    rw [Parsed.ofText, Token.ofText, Token.stream_of_blanks (List.all_eq_true.mp h)]
    rfl
  have hstore : s.store.takeOutput.2 = s.store := by
    rw [Store.takeOutput, ← (hs : s.store.output = "")]
  rw [s.run_of_clean (by rw [hparsed]; rfl), hparsed]
  show (Reply.mk (.ok none) s.store.output, Session.mk _ _ s.store.takeOutput.2) = _
  rw [hstore, hs]

/-- A blank line with a character that is no separator is malformed. -/
theorem run_of_isBlankLine {line : String} (h : isBlankLine line)
    (hstray : isSeparator line = false) (s : Session) :
    s.run line = (⟨.error (.syntactic #[.noOperand .illegal]), ""⟩, s) := by
  have hparsed : Parsed.ofText line = ⟨⟨[]⟩, #[.noOperand .illegal]⟩ := by
    rw [Parsed.ofText, Token.ofText, Token.stream_of_isBlank (List.all_eq_true.mp h)]
    cases hcs : line.toList.filter fun c => !isAsciiBlank c with
    | nil =>
        have hall : isSeparator line := by simpa [isSeparator] using hcs
        rw [hall] at hstray
        cases hstray
    | cons c cs =>
        refine Parsed.ofTokens_illegal fun u hu => ?_
        simp only [List.mem_cons, List.mem_map] at hu
        rcases hu with rfl | ⟨a, -, rfl⟩ <;> rfl
  rw [Session.run, hparsed]
  rfl

end Session

namespace Command

/-- Run every line, blank or not, and say everything that appears on the screen. -/
def evalLines (s : Session) : List String → String
  | [] => ""
  | line :: lines =>
    let (text, s) := evalLine s line
    text ++ evalLines s lines

/-- What is said about a line whose first token is a stray one. -/
def strayReport : String := (Failure.syntactic #[.noOperand .illegal]).report ++ "\n"

variable {s : Session} {line : String}

theorem evalLine_of_isSeparator (hs : s.Idle) (h : isSeparator line) :
    evalLine s line = ("", s) := by
  rw [evalLine, Session.run_of_isSeparator hs h]
  rfl

theorem evalLine_of_isBlankLine (h : isBlankLine line) (hstray : isSeparator line = false) :
    evalLine s line = (strayReport, s) := by
  rw [evalLine, Session.run_of_isBlankLine h hstray]
  rfl

theorem evalLine_idle (hs : s.Idle) (line : String) : (evalLine s line).2.Idle := by
  have h := hs.run line
  unfold evalLine
  dsimp only
  split <;> exact h

theorem isBlankLine_of_isSeparator (h : isSeparator line) : isBlankLine line :=
  List.all_eq_true.mpr fun c hc => isBlank_of_isAsciiBlank (List.all_eq_true.mp h c hc)

/-- A blank line with a stray character. Were it run, it would be complained about. -/
def isStrayLine (line : String) : Bool := isBlankLine line && !isSeparator line

theorem replLine_of_isStrayLine (h : isStrayLine line) :
    replLine s line = ("", s) ∧ evalLine s line = (strayReport, s) := by
  obtain ⟨hblank, hstray⟩ := Bool.and_eq_true_iff.mp h
  exact ⟨if_pos hblank, evalLine_of_isBlankLine hblank (by simpa using hstray)⟩

/-- Passing over any other blank line is running it. -/
theorem replLine_eq_evalLine (hs : s.Idle) (h : isStrayLine line = false) :
    replLine s line = evalLine s line := by
  cases hblank : isBlankLine line with
  | false => exact if_neg (by simp [hblank])
  | true =>
      have hsep : isSeparator line := by simpa [isStrayLine, hblank] using h
      rw [evalLine_of_isSeparator hs hsep]
      exact if_pos hblank

theorem replLines_eq_evalLines_filter (hs : s.Idle) (lines : List String) :
    replLines s lines = evalLines s (lines.filter fun line => !isStrayLine line) := by
  induction lines generalizing s with
  | nil => rfl
  | cons line lines ih =>
      cases h : isStrayLine line with
      | true =>
          rw [List.filter_cons_of_neg (by simp [h]), replLines, (replLine_of_isStrayLine h).1,
            ← ih hs]
          exact String.empty_append
      | false =>
          rw [List.filter_cons_of_pos (by simp [h]), replLines, evalLines,
            replLine_eq_evalLine hs h]
          exact congrArg ((evalLine s line).1 ++ ·) (ih (evalLine_idle hs line))

/-- Running every line shows one complaint more for each line with a stray character. -/
theorem length_evalLines (hs : s.Idle) (lines : List String) :
    (evalLines s lines).length =
      (replLines s lines).length + lines.countP isStrayLine * strayReport.length := by
  induction lines generalizing s with
  | nil => rfl
  | cons line lines ih =>
      cases h : isStrayLine line with
      | true =>
          have hrest := ih hs
          rw [List.countP_cons_of_pos h, Nat.succ_mul, replLines, evalLines,
            (replLine_of_isStrayLine h).1, (replLine_of_isStrayLine h).2]
          simp only [String.length_append, String.length_empty]
          omega
      | false =>
          have hrest := ih (evalLine_idle hs line)
          rw [List.countP_cons_of_neg (by simp [h]), replLines, evalLines,
            replLine_eq_evalLine hs h]
          simp only [String.length_append]
          omega

theorem replLines_eq_evalLines_iff (hs : s.Idle) (lines : List String) :
    replLines s lines = evalLines s lines ↔ ∀ line ∈ lines, isStrayLine line = false := by
  constructor
  · intro h
    have hlength := length_evalLines hs lines
    have hcount : lines.countP isStrayLine * strayReport.length = 0 := by
      rw [h] at hlength
      omega
    have hzero : lines.countP isStrayLine = 0 :=
      (Nat.mul_eq_zero.mp hcount).resolve_right (by decide)
    intro line hline
    exact Bool.eq_false_iff.mpr (List.countP_eq_zero.mp hzero line hline)
  · intro h
    rw [replLines_eq_evalLines_filter hs, List.filter_eq_self.mpr]
    intro line hline
    rw [h line hline]
    rfl

/-- The loop passes over blank lines. A line of separators would have had no effect and no answer. A
blank line with any other character would have been answered by a diagnostic and left the session as
it is. So the loop shows just what running all lines but the latter shows, and this is what running
all lines shows if and only if there are none of the latter. -/
theorem repl_passes_blank_lines (s : Session) (hs : s.Idle) :
    (∀ line, isSeparator line → isBlankLine line ∧ s.run line = (⟨.ok none, ""⟩, s)) ∧
      (∀ line, isBlankLine line → isSeparator line = false →
        s.run line = (⟨.error (.syntactic #[.noOperand .illegal]), ""⟩, s)) ∧
      ∀ lines,
        replLines s lines =
            evalLines s (lines.filter fun line => !(isBlankLine line && !isSeparator line)) ∧
          (replLines s lines = evalLines s lines ↔
            ∀ line ∈ lines, isBlankLine line → isSeparator line) := by
  refine ⟨fun line h => ⟨isBlankLine_of_isSeparator h, s.run_of_isSeparator hs h⟩,
    fun line h hstray => s.run_of_isBlankLine h hstray, fun lines => ⟨?_, ?_⟩⟩
  · exact replLines_eq_evalLines_filter hs lines
  · refine (replLines_eq_evalLines_iff hs lines).trans (forall₂_congr fun line _ => ?_)
    cases hb : isBlankLine line <;> cases hsep : isSeparator line <;> simp [isStrayLine, hb, hsep]

/-- After `let a = 1`, a line of spaces and a tab is passed over like a line that was run, and
`a` is still there. -/
theorem repl_passes_blank_lines_between :
    let s := ((Session.start 10).run "let a = 1;").2
    s.Idle ∧ isSeparator "  \t" ∧ s.run "  \t" = (⟨.ok none, ""⟩, s) ∧
      replLines s ["  \t", "a + 1"] = evalLines s ["  \t", "a + 1"] := by
  intro s
  have hs : s.Idle := (Session.idle_start 10).run _
  obtain ⟨hsep, -, hlines⟩ := repl_passes_blank_lines s hs
  have htab : isSeparator "  \t" := by decide +kernel
  refine ⟨hs, htab, (hsep _ htab).2, (hlines _).2.mpr ?_⟩
  decide +kernel

/-- A vertical tab is blank, and were it run, it would be complained about. -/
theorem verticalTab_unanswered :
    let s := Session.start 10
    isBlankLine "\x0b" ∧
      s.run "\x0b" = (⟨.error (.syntactic #[.noOperand .illegal]), ""⟩, s) ∧
      replLines s ["\x0b"] = "" ∧
      evalLines s ["\x0b"] = "parser errors:\n\tno prefix parse function for ILLEGAL found\n" := by
  intro s
  have hblank : isBlankLine "\x0b" := by decide +kernel
  have hstray : isSeparator "\x0b" = false := by decide +kernel
  refine ⟨hblank, s.run_of_isBlankLine hblank hstray, ?_, ?_⟩
  · rw [replLines, replLine, if_pos hblank]
    rfl
  · rw [evalLines, evalLine_of_isBlankLine hblank hstray]
    rfl

end Command

end Sprig
