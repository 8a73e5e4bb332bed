import Mathlib.Data.List.ReduceOption
import Sprig.Proofs.Token.Partition

/-!
Calls of both kinds on one lexer.

`next?` and `nextToken` read on in the same text, but only `next?` notices that the text has ended
and answers nothing from then on. However the calls are mixed, each one that is answered by a token
takes the next token of the text, and the end of the text once there is no other. What silences
`next?` is an end that `next?` itself has answered.
-/

namespace Sprig

namespace Token

/-- Only the end of a text has the kind of an end. -/
theorem kind_scan_eq_eof_iff (cs : List Char) : (scan cs).1.kind = .eof ↔ (scan cs).1 = eof := by
  constructor
  · intro hk
    by_contra hne
    obtain ⟨_, _, _, _, hf⟩ := scan_fronts (Prod.eta _).symm hne
    exact hf.wellFormed.kind_ne_eof hk
  · intro h
    rw [h]
    rfl

theorem scan_of_end {cs : List Char} (h : (scan cs).1 = eof) : scan cs = (eof, []) := by
  rw [scan, List.dropWhile_eq_nil_iff.mpr (blanks_of_scan h)]

theorem isPrefix_more_ends (ts : List Token) (n : Nat) :
    ts ++ List.replicate n eof <+: ts ++ List.replicate (n + 1) eof :=
  ⟨[eof], by simp [List.replicate_succ']⟩

/-- The tokens behind the first are those of the text behind it. Behind the end there is the end
again. -/
theorem scan_cons_isPrefix {cs : List Char} {ts : List Token} {n : Nat}
    (h : ts <+: stream (scan cs).2 ++ List.replicate n eof) :
    (scan cs).1 :: ts <+: stream cs ++ List.replicate (n + 1) eof := by
  by_cases hend : (scan cs).1 = eof
  · rw [scan_of_end hend, stream_of_end rfl] at h
    simpa [stream_of_end hend, hend, List.replicate_succ] using h
  · rw [stream_of_scan (Prod.eta _).symm hend, List.cons_append, List.cons_prefix_cons]
    exact ⟨rfl, h.trans (isPrefix_more_ends _ n)⟩

end Token

namespace Lexer

/-- The two ways of asking a lexer for a token: `next?` and `nextToken`. -/
inductive Call
  | next
  | nextToken
  deriving DecidableEq

/-- The answer to a call, and the lexer after it. -/
def ask (l : Lexer) : Call → Option Token × Lexer
  | .next => l.next?
  | .nextToken => (some l.nextToken.1, l.nextToken.2)

/-- The answers to calls that are made one after another. -/
def answers : Lexer → List Call → List (Option Token)
  | _, [] => []
  | l, c :: cs => (l.ask c).1 :: answers (l.ask c).2 cs

/-- The tokens among the answers. -/
def delivered (l : Lexer) (calls : List Call) : List Token :=
  (l.answers calls).reduceOption

variable {l : Lexer}

theorem ask_of_finished (h : l.finished) : l.ask .next = (none, l) :=
  next_of_finished h

/-- Every call but those that are silenced reads a token of the text. -/
theorem ask_of_unfinished {c : Call} (h : ¬ (c = .next ∧ l.finished)) :
    (l.ask c).1 = some (Token.scan l.rest).1 ∧ (l.ask c).2.rest = (Token.scan l.rest).2 := by
  cases c with
  | next =>
      have hf : l.finished = false := by simpa using h
      simp [ask, next_of_unfinished hf]
  | nextToken => exact ⟨rfl, rfl⟩

theorem ask_eq_none_iff (l : Lexer) (c : Call) : (l.ask c).1 = none ↔ c = .next ∧ l.finished := by
  constructor
  · intro hnone
    by_contra h
    simp [(ask_of_unfinished h).1] at hnone
  · rintro ⟨rfl, hf⟩
    rw [ask_of_finished hf]

/-- A lexer is finished once `next?` has answered the end. -/
theorem finished_ask_iff (l : Lexer) (c : Call) :
    (l.ask c).2.finished ↔ l.finished ∨ c = .next ∧ (l.ask c).1 = some .eof := by
  cases c with
  | nextToken => simp [ask, nextToken]
  | next =>
      cases hf : l.finished with
      | true => simp [ask, next_of_finished hf, hf]
      | false => simp [ask, next_of_unfinished hf, Token.kind_scan_eq_eof_iff]

theorem delivered_isPrefix (l : Lexer) (calls : List Call) :
    l.delivered calls <+: Token.stream l.rest ++ List.replicate calls.length .eof := by
  induction calls generalizing l with
  | nil => exact List.nil_prefix
  | cons c calls ih =>
      have hlater := ih (l.ask c).2
      by_cases hsilent : c = .next ∧ l.finished
      · obtain ⟨rfl, hf⟩ := hsilent
        rw [ask_of_finished hf] at hlater
        rw [delivered, answers, ask_of_finished hf, List.reduceOption_cons_of_none]
        exact hlater.trans (Token.isPrefix_more_ends _ _)
      · obtain ⟨hanswer, hrest⟩ := ask_of_unfinished hsilent
        rw [hrest] at hlater
        rw [delivered, answers, hanswer, List.reduceOption_cons_of_some]
        exact Token.scan_cons_isPrefix hlater

/-- Only calls of `next?` are silenced, by an end that `next?` has answered before. -/
theorem getElem?_answers_eq_none_iff (l : Lexer) (calls : List Call) (i : Nat) :
    (l.answers calls)[i]? = some none ↔ calls[i]? = some .next ∧ (l.finished ∨
      ∃ j < i, calls[j]? = some .next ∧ (l.answers calls)[j]? = some (some .eof)) := by
  induction calls generalizing l i with
  | nil => simp [answers]
  | cons c calls ih =>
      cases i with
      | zero => simp [answers, ask_eq_none_iff]
      | succ i =>
          simp only [answers, List.getElem?_cons_succ, ih, finished_ask_iff,
            Nat.exists_lt_succ_left, List.getElem?_cons_zero, Option.some.injEq, or_assoc]

end Lexer

/-- The tokens of a text are those into which it is cut, and the end. However calls of `next?` and
`nextToken` are mixed, the tokens they deliver are these from the first on, and then the end over
and over. A call is answered by nothing if and only if it is one of `next?` and an earlier call of
`next?` was answered by the end. -/
theorem lexer_calls_interleave (source : String) (calls : List Lexer.Call) :
    let l := Lexer.ofText source
    (∃ ts, Token.ofText source = ts ++ [.eof] ∧ Token.Cut ts source.toList) ∧
      l.delivered calls <+: Token.ofText source ++ List.replicate calls.length .eof ∧
      ∀ i : Nat, (l.answers calls)[i]? = some none ↔
        calls[i]? = some .next ∧
          ∃ j < i, calls[j]? = some .next ∧ (l.answers calls)[j]? = some (some .eof) := by
  intro l
  refine ⟨Token.cut_stream source.toList, l.delivered_isPrefix calls, fun i => ?_⟩
  have hfinished : l.finished = false := rfl
  simpa [hfinished] using l.getElem?_answers_eq_none_iff calls i

example : (Lexer.ofText "a").answers [.nextToken, .nextToken, .next, .next, .nextToken] =
    [some (.word "a"), some .eof, some .eof, none, some .eof] := by
  decide +kernel

end Sprig
