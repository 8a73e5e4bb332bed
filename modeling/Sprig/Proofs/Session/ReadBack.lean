import Sprig.Proofs.Grammar.Rendering
import Sprig.Session
import Sprig.Value.Text

/-!
Data values are written as source text for themselves.

The inspected text of a number, a boolean, a string of plain characters or an array of such values
is an expression, and running it yields an equal value. A negative number is read as the negation of
a numeral, so the least integer, whose negation is no integer, is left out. The objects of the value
are made anew, hence the result is equal and not the same.

`Literal` is what the induction on the value carries: a text with its tokens, the expression that
they spell, and what the expression evaluates to, wherever it is evaluated.
-/

namespace Sprig

open Text Token Writing

/-- A printable ASCII character that is quoted as itself. -/
def Text.isPlainChar (c : Char) : Bool :=
  0x20 ≤ c.toNat && c.toNat ≤ 0x7e && c != '"' && c != '\\'

mutual

/-- The value is made of numbers other than the least one, booleans, plain strings and arrays. -/
def Value.isData : Value → Bool
  | .int n => n != Int64.minValue
  | .str _ s => s.toList.all isPlainChar
  | .bool _ => true
  | .array _ items => Value.areData items
  | .null | .closure _ _ | .builtin _ => false
termination_by structural v => v

def Value.areData : List Value → Bool
  | [] => true
  | v :: vs => v.isData && Value.areData vs
termination_by structural vs => vs

end

/-- The text `cs` is read as the tokens `w`, and these spell the expression `e`, which shows a value
equal to `v` wherever it is evaluated. -/
structure Literal (v : Value) (cs : List Char) (e : Expr) (w : List Token) : Prop where
  stream {r : List Char} : Clear r → Token.stream (cs ++ r) = w ++ Token.stream r
  written : Written true .free e w
  shown (call : Applier) (i : ScopeId) : e.shown call i = (do let v ← e.eval call i; return some v)
  eval (call : Applier) (i : ScopeId) (st : Store) :
    ∃ u st', e.eval call i st = (.ok u, st') ∧ u.equal v

/-- The same for several values, where `W` says how their expressions are to be spelled. -/
structure Literals (W : List Expr → List Token → Prop) (vs : List Value) (cs : List Char)
    (es : List Expr) (w : List Token) : Prop where
  stream {r : List Char} : Clear r → Token.stream (cs ++ r) = w ++ Token.stream r
  written : W es w
  eval (call : Applier) (i : ScopeId) (st : Store) :
    ∃ us st', Expr.evalAll call i es st = (.ok us, st') ∧ Value.equalAll us vs

theorem literal_nonneg {n : Int64} (h : 0 ≤ n.toInt) :
    Literal (.int n) (decimal n).toList (.int n) [⟨.int, decimal n⟩] := by
  obtain ⟨c, cs, hdecimal, hd, hread⟩ := decimal_of_nonneg h
  refine ⟨fun {r} hr => ?_, ?_, fun call i => rfl, fun call i st => ⟨.int n, st, rfl, ?_⟩⟩
  · rw [hdecimal]
    exact (WellFormed.int hd).stream fun c hc => (hr c hc).2
  · exact .bare (Expr.not_groups rfl .free) (.int rfl hread)
  · exact beq_self_eq_true n

/-- The numeral of a negative number is that of its negation behind a sign. -/
theorem decimal_of_neg {n : Int64} (hn : n.toInt < 0) (hmin : n ≠ Int64.minValue) :
    ∃ m : Int64, m.toInt = -n.toInt ∧ (decimal n).toList = '-' :: (decimal m).toList := by
  have hlo := n.le_toInt
  have hne : n.toInt ≠ -9223372036854775808 := fun h => hmin (Int64.toInt_inj.mp h)
  have hm : (Int64.ofInt (-n.toInt)).toInt = -n.toInt :=
    Int64.toInt_ofInt_of_le (by omega) (by omega)
  refine ⟨Int64.ofInt (-n.toInt), hm, ?_⟩
  obtain ⟨k, hk⟩ := Int.eq_negSucc_of_lt_zero hn
  rw [decimal, decimal, hm, hk, Int.neg_negSucc]
  simp only [Int.repr, String.toList_append]
  rfl

theorem literal_negative {n m : Int64} (hn : n.toInt < 0) (hm : m.toInt = -n.toInt)
    (hdecimal : (decimal n).toList = '-' :: (decimal m).toList) :
    Literal (.int n) (decimal n).toList (.unary .negate (.int m))
      [.symbol .minus, ⟨.int, decimal m⟩] := by
  have hpos := literal_nonneg (n := m) (by omega)
  refine ⟨fun {r} hr => ?_, ?_, fun call i => rfl, fun call i st => ⟨.int n, st, ?_, ?_⟩⟩
  · rw [hdecimal, List.cons_append, stream_symbol '-' rfl (fun _ => rfl), hpos.stream hr]
    rfl
  · obtain ⟨-, -, -, -, hread⟩ := decimal_of_nonneg (v := m) (by omega)
    exact .bare id (.unary rfl (.bare id (.int rfl hread)))
  · have hneg : Integer.neg? m = some n := by
      rw [Integer.neg?, hm, Int.neg_neg, fit?_toInt]
    show (UnaryOp.negate.apply (.int m)).eval st = _
    rw [UnaryOp.apply, hneg]
    rfl
  · exact beq_self_eq_true n

theorem literal_bool (b : Bool) :
    Literal (.bool b) (Value.bool b).inspect.toList (.bool b)
      [.word (if b then "true" else "false")] := by
  refine ⟨fun {r} hr => ?_, ?_, fun call i => rfl, fun call i st => ⟨.bool b, st, rfl, ?_⟩⟩
  · cases b <;> exact stream_word rfl hr
  · exact .bare (Expr.not_groups rfl .free) (.bool (by cases b <;> decide))
  · exact beq_self_eq_true b

theorem quoteChar_of_isPlainChar {c : Char} (h : isPlainChar c) : c ≠ '"' ∧ quoteChar c = [c] := by
  simp only [isPlainChar, Bool.and_eq_true, decide_eq_true_eq, bne_iff_ne] at h
  obtain ⟨⟨⟨hlo, hhi⟩, hq⟩, hb⟩ := h
  have hvisible : isVisible c := by
    rw [isVisible, if_pos (by omega), Bool.and_eq_true, decide_eq_true_eq, decide_eq_true_eq]
    omega
  exact ⟨hq, quoteChar_of_visible hq hb hvisible⟩

theorem flatMap_quoteChar {cs : List Char} (h : ∀ c ∈ cs, isPlainChar c) :
    cs.flatMap quoteChar = cs := by
  induction cs with
  | nil => rfl
  | cons c cs ih =>
      obtain ⟨hc, hcs⟩ := List.forall_mem_cons.mp h
      rw [List.flatMap_cons, (quoteChar_of_isPlainChar hc).2, ih hcs]
      rfl

theorem literal_str (i : ObjectId) {s : String} (h : ∀ c ∈ s.toList, isPlainChar c) :
    Literal (.str i s) (quoted s).toList (.str s) [⟨.string, s⟩] := by
  have hq : '"' ∉ s.toList := fun hc => (quoteChar_of_isPlainChar (h _ hc)).1 rfl
  refine ⟨fun {r} _ => ?_, ?_, fun call i => rfl, fun call i st => ⟨_, _, rfl, ?_⟩⟩
  · have hstream := (WellFormed.string hq).stream (r := r) fun _ _ => rfl
    rw [String.ofList_toList] at hstream
    rw [quoted, String.toList_ofList, flatMap_quoteChar h]
    exact hstream
  · exact .bare id (.str (t := ⟨.string, s⟩) rfl)
  · exact beq_self_eq_true s

theorem literal_array (i : ObjectId) {vs : List Value} {cs : List Char} {es : List Expr}
    {w : List Token} (h : Literals (Items true) vs cs es w) :
    Literal (.array i vs) ('[' :: (cs ++ [']'])) (.array es)
      (.symbol .lbracket :: (w ++ [.symbol .rbracket])) := by
  refine ⟨fun {r} _ => ?_, .bare id (.array rfl h.written rfl), fun call i => rfl,
    fun call i st => ?_⟩
  · rw [List.cons_append, List.append_assoc, List.singleton_append,
      stream_symbol '[' rfl (fun _ => rfl), h.stream (clear_cons rfl rfl),
      stream_symbol ']' rfl (fun _ => rfl)]
    simp
  · obtain ⟨us, st', hus, hequal⟩ := h.eval call i st
    refine ⟨.array st'.nextObject us, (st'.newArray us).2, ?_, hequal⟩
    rw [Expr.eval, Run.bind_of_ok hus]
    rfl

namespace Literals

theorem nil {W : List Expr → List Token → Prop} (h : W [] []) : Literals W [] [] [] [] :=
  ⟨fun _ => rfl, h, fun _ _ st => ⟨[], st, rfl, rfl⟩⟩

variable {v : Value} {vs : List Value} {cs : List Char} {ss : List String} {e : Expr}
  {es : List Expr} {u w : List Token}

/-- The values of several expressions are found one after another, each in the store that the one
before it left. -/
theorem eval_cons {W : List Expr → List Token → Prop} {ds : List Char} (h : Literal v cs e u)
    (hs : Literals W vs ds es w) (call : Applier) (i : ScopeId) (st : Store) :
    ∃ us st', Expr.evalAll call i (e :: es) st = (.ok us, st') ∧ Value.equalAll us (v :: vs) := by
  obtain ⟨a, st₁, ha, hequal⟩ := h.eval call i st
  obtain ⟨as, st₂, has, hequals⟩ := hs.eval call i st₁
  refine ⟨a :: as, st₂, ?_, Bool.and_eq_true_iff.mpr ⟨hequal, hequals⟩⟩
  rw [Expr.evalAll, Run.bind_of_ok ha, Run.bind_of_ok has]
  rfl

theorem items (h : Literal v cs e u) (hs : Literals (MoreItems true) vs (more ss) es w) :
    Literals (Items true) (v :: vs) (cs ++ more ss) (e :: es) (u ++ w) := by
  refine ⟨fun {r} hr => ?_, .cons h.written hs.written, eval_cons h hs⟩
  rw [List.append_assoc, h.stream (clear_more ss hr), hs.stream hr, List.append_assoc]

theorem more {s : String} (h : Literal v s.toList e u)
    (hs : Literals (MoreItems true) vs (Text.more ss) es w) :
    Literals (MoreItems true) (v :: vs) (Text.more (s :: ss)) (e :: es)
      (.symbol .comma :: (u ++ w)) := by
  refine ⟨fun {r} hr => ?_, .cons rfl h.written hs.written, eval_cons h hs⟩
  rw [Text.more, List.cons_append, List.cons_append, List.append_assoc,
    stream_symbol ',' rfl (fun _ => rfl), stream_space, h.stream (clear_more ss hr), hs.stream hr,
    List.cons_append, List.append_assoc]

end Literals

mutual

theorem exists_literal : ∀ v : Value, v.isData → ∃ e w, Literal v v.inspect.toList e w
  | .int n, h => by
      by_cases hn : 0 ≤ n.toInt
      · exact ⟨_, _, literal_nonneg hn⟩
      · obtain ⟨m, hm, hdecimal⟩ := decimal_of_neg (by omega) (bne_iff_ne.mp h)
        exact ⟨_, _, literal_negative (by omega) hm hdecimal⟩
  | .str i s, h => ⟨_, _, literal_str i (List.all_eq_true.mp h)⟩
  | .bool b, _ => ⟨_, _, literal_bool b⟩
  | .array i vs, h => by
      obtain ⟨es, w, hitems⟩ := exists_items vs h
      have htext : (Value.array i vs).inspect.toList =
          '[' :: ((", ".intercalate (Value.inspectAll vs)).toList ++ [']']) := by
        simp [Value.inspect]
      exact ⟨_, _, htext ▸ literal_array i hitems⟩

theorem exists_items : ∀ vs : List Value, Value.areData vs →
    ∃ es w, Literals (Items true) vs (", ".intercalate (Value.inspectAll vs)).toList es w
  | [], _ => ⟨_, _, .nil .nil⟩
  | v :: vs, h => by
      obtain ⟨hv, hvs⟩ := Bool.and_eq_true_iff.mp h
      obtain ⟨e, u, hfirst⟩ := exists_literal v hv
      obtain ⟨es, w, hmore⟩ := exists_literals vs hvs
      rw [Value.inspectAll, toList_intercalate]
      exact ⟨_, _, .items hfirst hmore⟩

theorem exists_literals : ∀ vs : List Value, Value.areData vs →
    ∃ es w, Literals (MoreItems true) vs (more (Value.inspectAll vs)) es w
  | [], _ => ⟨_, _, .nil .nil⟩
  | v :: vs, h => by
      obtain ⟨hv, hvs⟩ := Bool.and_eq_true_iff.mp h
      obtain ⟨e, u, hfirst⟩ := exists_literal v hv
      obtain ⟨es, w, hmore⟩ := exists_literals vs hvs
      exact ⟨_, _, .more hfirst hmore⟩

end

/-- Tokens that spell an expression are read as that expression alone. -/
theorem Parsed.ofTokens_written {e : Expr} {w : List Token} (h : Written true .free e w) :
    ofTokens (w ++ [.eof]) = ⟨⟨[.expr e]⟩, #[]⟩ := by
  have hlength : w.length < (w ++ [Token.eof]).length + 1 := by
    rw [List.length_append]
    omega
  obtain ⟨d, hd, hrest, hdiag⟩ := Nested.statement_reads_last (Nested.complete_within _) h hlength
    (x := [.eof]) rfl (c := Cursor.start (w ++ [.eof])) rfl
  have hstart : Nested.endsProgram (Cursor.start (w ++ [.eof])).kind = false :=
    (Bool.or_eq_false_iff.mp (Kind.statement_of_starts (h.starts [.eof])).2.2.2).2
  have hstop : Nested.endsProgram d.advance.kind := by
    rw [Cursor.kind, d.advance_rest, hrest]
    rfl
  have hread : (Nested.within ((w ++ [Token.eof]).length + 1)).statements Nested.endsProgram 0
      ((w ++ [Token.eof]).length + 1) (Cursor.start (w ++ [.eof])) = ([.expr e], d.advance) := by
    rw [Nested.statements_of_read _ hstart hd, Nested.statements_of_stop _ hstop]
  rw [ofTokens_of_statements hread, d.advance_diagnostics, hdiag]
  rfl

theorem Literal.ofText {v : Value} {text : String} {e : Expr} {w : List Token}
    (h : Literal v text.toList e w) : Parsed.ofText text = ⟨⟨[.expr e]⟩, #[]⟩ := by
  have hstream : Token.ofText text = w ++ [.eof] := by
    have hs := h.stream (r := []) (fun c hc => by cases hc)
    have hend : Token.stream [] = [.eof] := stream_of_end rfl
    rwa [List.append_nil, hend] at hs
  rw [Parsed.ofText, hstream, Parsed.ofTokens_written h.written]

/-- The inspected text of a data value is source text without a fault in it, and in any session it
yields an equal value. -/
theorem run_inspect (s : Session) (v : Value) (data : v.isData) :
    (Parsed.ofText v.inspect).diagnostics = #[] ∧
      ∃ w, (s.run v.inspect).1.result = .ok (some w) ∧ w.equal v := by
  obtain ⟨e, w, h⟩ := exists_literal v data
  obtain ⟨u, st, hu, hequal⟩ := h.eval (Value.apply s.limit) s.root s.store
  have hparsed := h.ofText
  have hexpr : (Stmt.expr e).shown (Value.apply s.limit) s.root s.store = (.ok (some u), st) := by
    rw [Stmt.shown, h.shown, Run.bind_of_ok hu]
    rfl
  have hshown : (Parsed.ofText v.inspect).program.shown s.limit s.root s.store =
      (.ok (some u), st) := by
    rw [hparsed, Program.shown, Stmt.shownAll, Run.bind_of_ok hexpr]
    rfl
  refine ⟨by rw [hparsed], u, ?_, hequal⟩
  rw [s.run_of_clean (by rw [hparsed]; rfl), hshown]
  rfl

/-- An array with a negative number, an array and a string full of delimiters. -/
theorem run_inspect_nested :
    let v : Value := .array 3 [.int (-12), .array 1 [.bool true, .array 0 []], .str 2 "], [1, -]"]
    v.inspect = "[-12, [true, []], \"], [1, -]\"]" ∧ v.isData ∧
      ∃ w, ((Session.start 10).run v.inspect).1.result = .ok (some w) ∧ w.equal v := by
  intro v
  exact ⟨by decide +kernel, by decide +kernel, (run_inspect _ v (by decide +kernel)).2⟩

end Sprig
