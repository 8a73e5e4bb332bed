import Sprig.Proofs.Token.Printing

/-!
A text is made of its tokens.

`Token.Cut` says how a text falls into tokens with blanks around them, where nothing is lost and
each token is as long as it can be. There is one such cut of every text, and a lexer yields just
that one.
-/

namespace Sprig

open Text

/-- The text is made of blanks and of these tokens, in this order. -/
inductive Token.Cut : List Token → List Char → Prop
  /-- Behind the last token there are only blanks. -/
  | blanks {b : List Char} (hb : ∀ c ∈ b, isAsciiBlank c) : Cut [] b
  /-- What follows a token cannot belong to it: no letter or underscore follows a word, no digit a
  number, and no `=` one of `=` and `!`. -/
  | token {b r : List Char} {t : Token} {ts : List Token} (hb : ∀ c ∈ b, isAsciiBlank c)
      (ht : t.isPrintable) (apart : t.Apart r) (rest : Cut ts r) :
      Cut (t :: ts) (b ++ (t.spelling ++ r))
  /-- A string without its closing quote goes on to the end of the text. -/
  | unclosed {b : List Char} {t : Token} (hb : ∀ c ∈ b, isAsciiBlank c) (hk : t.kind = .string)
      (ht : t.isPrintable) : Cut [t] (b ++ '"' :: t.text.toList)

namespace Token

variable {t : Token} {ts : List Token} {cs : List Char}

theorem stream_of_blanks (h : ∀ c ∈ cs, isAsciiBlank c) : stream cs = [eof] := by
  rw [← List.append_nil cs, stream_blanks h, stream_of_end rfl]

theorem stream_unclosed (hk : t.kind = .string) (ht : t.isPrintable) :
    stream ('"' :: t.text.toList) = [t, eof] := by
  obtain ⟨k, s⟩ := t
  subst hk
  have hq : ∀ c ∈ s.toList, decide (c ≠ '"') := by
    intro c hc
    rw [decide_eq_true_eq]
    rintro rfl
    simp [isPrintable, hc] at ht
  have hscan : scan ('"' :: s.toList) = (⟨.string, s⟩, []) := by
    refine (scan_cons rfl _).trans ?_
    show (_, _) = _
    rw [List.takeWhile_eq_self_iff.mpr hq, List.dropWhile_eq_nil_iff.mpr hq, String.ofList_toList,
      List.tail_nil]
  rw [stream_of_scan hscan fun he => Kind.noConfusion (congrArg Token.kind he), stream_of_end rfl]

theorem Cut.stream_eq (h : Cut ts cs) : stream cs = ts ++ [eof] := by
  induction h with
  | blanks hb => exact stream_of_blanks hb
  | token hb ht apart _ ih =>
      rw [stream_blanks hb, (isPrintable_iff.mp ht).stream apart, ih, List.cons_append]
  | unclosed hb hk ht => rw [stream_blanks hb, stream_unclosed hk ht, List.singleton_append]

theorem cut_stream (cs : List Char) : ∃ ts, stream cs = ts ++ [eof] ∧ Cut ts cs := by
  induction cs using stream.induct with
  | case1 cs hend => exact ⟨[], stream_of_end hend, .blanks (blanks_of_scan hend)⟩
  | case2 cs hne ih =>
      obtain ⟨ts, hts, hcut⟩ := ih
      have hscan : scan cs = ((scan cs).1, (scan cs).2) := rfl
      generalize (scan cs).1 = t at hscan hne
      generalize (scan cs).2 = r at hscan hts hcut
      obtain ⟨b, s, hb, rfl, hf⟩ := scan_fronts hscan hne
      have hprintable := hf.wellFormed.isPrintable
      refine ⟨t :: ts, by rw [stream_of_scan hscan hne, hts, List.cons_append], ?_⟩
      obtain rfl | ⟨hk, rfl, rfl⟩ := hf.spelled
      · exact .token hb hprintable hf.apart hcut
      · -- nothing is left behind a string that is not closed
        have hnil : ts = [] := by
          rw [stream_of_end rfl] at hts
          cases ts with
          | nil => rfl
          | cons u us => cases us <;> cases hts
        rw [hnil]
        exact .unclosed hb hk hprintable

end Token

theorem Lexer.Yields.unique {l : Lexer} {ts us : List Token} (h : l.Yields ts)
    (h' : l.Yields us) : ts = us :=
  List.ext_getElem? fun n => (h n).symm.trans (h' n)

/-- Every text is cut into the tokens that a lexer yields for it before the end, and cannot be cut
into any others. -/
theorem lexer_partitions_text (source : String) :
    (∃ ts, (Lexer.ofText source).Yields (ts ++ [.eof])) ∧
      ∀ ts, (Lexer.ofText source).Yields (ts ++ [.eof]) ↔ Token.Cut ts source.toList := by
  have hyields := Lexer.yields_ofText source
  obtain ⟨us, hstream, hcut⟩ := Token.cut_stream source.toList
  rw [Token.ofText, hstream] at hyields
  refine ⟨⟨us, hyields⟩, fun ts => ⟨fun h => ?_, fun h => ?_⟩⟩
  · rw [List.append_cancel_right (h.unique hyields)]
    exact hcut
  · rw [← h.stream_eq, hstream]
    exact hyields

end Sprig
