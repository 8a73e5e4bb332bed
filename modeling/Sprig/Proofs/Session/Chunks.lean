import Sprig.Proofs.Evaluation.Independence
import Sprig.Proofs.Grammar.Composition
import Sprig.Proofs.Token.Spelling
import Sprig.Session

/-!
A session does not notice how its source is cut.

A text that ends in a `;` outside of all braces may be run alone or together with the text behind
it. Three facts make this true: such a text has the same tokens in front of another one, it is read
as the same statements, and an evaluation takes over everything that the one before it left, except
for the output, which it does not look at.
-/

namespace Sprig

theorem Token.closes_append_eof {h : Nat} {ts : List Token} (hts : Closes h (ts ++ [eof])) :
    Closes h ts := by
  induction ts generalizing h with
  | nil => exact hts.2
  | cons t ts ih => exact ⟨hts.1, ih hts.2⟩

/-- The tokens of a text that ends in a `;` outside of all braces. -/
theorem Token.ofText_boundary {source : String}
    (boundary : (ofText source).dropLast.getLast?.map Token.kind = some .semicolon)
    (balanced : Balanced (ofText source)) :
    ∃ s sc, ofText source = s ++ [sc, eof] ∧ sc.kind = .semicolon ∧ Enclosed 0 s := by
  obtain ⟨ts, hts, hwell⟩ := stream_wellFormed source.toList
  rw [ofText, hts] at boundary balanced
  rw [List.dropLast_concat] at boundary
  obtain ⟨sc, hlast, hsc⟩ := Option.map_eq_some_iff.mp boundary
  obtain ⟨s, rfl⟩ := List.getLast?_eq_some_iff.mp hlast
  refine ⟨s, sc, by rw [ofText, hts, List.append_assoc]; rfl, hsc, ?_⟩
  exact .of_append_semicolon hsc ⟨closes_append_eof balanced, fun t ht => (hwell t ht).kind_ne_eof⟩

/-- Behind a `;` outside of all braces a text is read as if it stood alone. -/
theorem Parsed.ofText_append {first : String}
    (boundary : (Token.ofText first).dropLast.getLast?.map Token.kind = some .semicolon)
    (balanced : Token.Balanced (Token.ofText first)) (second : String) :
    (ofText (first ++ second)).program.statements =
        (ofText first).program.statements ++ (ofText second).program.statements ∧
      (ofText (first ++ second)).diagnostics =
        (ofText first).diagnostics ++ (ofText second).diagnostics := by
  obtain ⟨s, sc, hfirst, hsc, e⟩ := Token.ofText_boundary boundary balanced
  have hwhole : Token.ofText (first ++ second) = s ++ sc :: Token.ofText second := by
    rw [Token.ofText, String.toList_append]
    exact Token.stream_append hsc hfirst second.toList
  -- the end marker of the first text adds nothing to what was read before it
  obtain ⟨hs, hd⟩ := ofTokens_split hsc e [Token.eof]
  have hend : ofTokens [Token.eof] = ⟨⟨[]⟩, #[]⟩ := rfl
  rw [hend, List.append_nil] at hs
  rw [hend, Array.append_empty] at hd
  rw [ofText, ofText, ofText, hwhole, hfirst, hs, hd]
  exact ofTokens_split hsc e (Token.ofText second)

theorem Stmt.shownAll_append (call : Applier) (i : ScopeId) (ss ts : List Stmt)
    (last : Option Value) :
    Stmt.shownAll call i (ss ++ ts) last =
      Stmt.shownAll call i ss last >>= fun shown => Stmt.shownAll call i ts shown := by
  induction ss generalizing last with
  | nil => simp [Stmt.shownAll]
  | cons s ss ih => simp [Stmt.shownAll, ih]

/-- Only an empty list shows what was shown before it. -/
theorem Stmt.shownAll_last (call : Applier) (i : ScopeId) {ss : List Stmt} (hss : ss ≠ [])
    (last last' : Option Value) : Stmt.shownAll call i ss last = Stmt.shownAll call i ss last' := by
  cases ss with
  | nil => exact absurd rfl hss
  | cons s ss => rfl

theorem Program.shown_behind (limit : Nat) (i : ScopeId) (p : Program) (text : String)
    (st : Store) :
    p.shown limit i (st.behind text) =
      ((p.shown limit i st).1, (p.shown limit i st).2.behind text) := by
  unfold Program.shown
  rw [Stmt.shownAll_behind]
  rcases Stmt.shownAll (Value.apply limit) i p.statements none st with ⟨(_ | _) | _, _⟩ <;> rfl

/-- Running a text that ends in a `;` and then another is running both as one: the second text has
the same result, the session is the same afterwards, with all its bindings in their order, and
together the two have printed the same. -/
theorem run_append (s : Session) (first second : String)
    (boundary : (Token.ofText first).dropLast.getLast?.map Token.kind = some .semicolon)
    (balanced : Token.Balanced (Token.ofText first))
    (clean : (Parsed.ofText first).isClean) (clean' : (Parsed.ofText second).isClean)
    (nonempty : (Parsed.ofText second).program.statements ≠ [])
    (completes : ∃ shown st, Stmt.shownAll (Value.apply s.limit) s.root
      (Parsed.ofText first).program.statements none s.store = (.ok shown, st)) :
    let ran := s.run first
    let ran' := ran.2.run second
    let whole := s.run (first ++ second)
    whole.1.result = ran'.1.result ∧ whole.2 = ran'.2 ∧
      whole.1.output = ran.1.output ++ ran'.1.output := by
  obtain ⟨shown, st, hst⟩ := completes
  obtain ⟨hstatements, hdiagnostics⟩ := Parsed.ofText_append boundary balanced second
  have cleanBoth : (Parsed.ofText (first ++ second)).isClean := by
    rw [Parsed.isClean, Array.isEmpty_iff] at clean clean' ⊢
    rw [hdiagnostics, clean, clean']
    rfl
  have hfirst : (Parsed.ofText first).program.shown s.limit s.root s.store = (.ok shown, st) := by
    rw [Program.shown, hst]
  have hwhole : (Parsed.ofText (first ++ second)).program.shown s.limit s.root s.store =
      (Parsed.ofText second).program.shown s.limit s.root st := by
    unfold Program.shown
    rw [hstatements, Stmt.shownAll_append, Run.bind_of_ok hst,
      Stmt.shownAll_last _ _ nonempty shown none]
  have hst : st = st.takeOutput.2.behind st.output := by
    simp [Store.takeOutput, Store.behind]
  rw [hst, Program.shown_behind] at hwhole
  intro ran ran' whole
  have hran : ran = (⟨.ok shown, st.output⟩, { s with store := st.takeOutput.2 }) := by
    simp only [ran]
    rw [s.run_of_clean clean, hfirst]
    rfl
  simp only [whole, ran', hran]
  rw [Session.run_of_clean _ cleanBoth, Session.run_of_clean _ clean', hwhole]
  exact ⟨rfl, rfl, rfl⟩

/-- The function that `let f = fn(n) { puts(n); n }; f(1); ` defines is there for `f(2)`, and each
text prints a line. -/
theorem run_append_printed :
    let s := Session.start 10
    let ran' := (s.run "let f = fn(n) \x7b puts(n); n \x7d; f(1); ").2.run "f(2)"
    let whole := s.run ("let f = fn(n) \x7b puts(n); n \x7d; f(1); " ++ "f(2)")
    whole.1.result = .ok (some (.int 2)) ∧ whole.2 = ran'.2 ∧ whole.1.output = "1\n" ++ "2\n" := by
  have hfirst : (Parsed.ofText "let f = fn(n) \x7b puts(n); n \x7d; f(1); ").program =
      ⟨[.bind "f" (.function ["n"]
          [.expr (.call (.ident "puts") [.ident "n"]), .expr (.ident "n")]),
        .expr (.call (.ident "f") [.int 1])]⟩ := by decide +kernel
  have hsecond : (Parsed.ofText "f(2)").program = ⟨[.expr (.call (.ident "f") [.int 2])]⟩ := by
    decide +kernel
  have clean : (Parsed.ofText "let f = fn(n) \x7b puts(n); n \x7d; f(1); ").isClean := by
    decide +kernel
  have clean' : (Parsed.ofText "f(2)").isClean := by decide +kernel
  obtain ⟨hresult, hsession, houtput⟩ := run_append (Session.start 10) _ "f(2)"
    (by decide +kernel) (by decide +kernel) clean clean'
    (by rw [hsecond]; exact List.cons_ne_nil _ _) ⟨_, _, by rw [hfirst]; rfl⟩
  refine ⟨hresult.trans ?_, hsession, houtput.trans ?_⟩
  all_goals
    rw [Session.run_of_clean _ clean, Session.run_of_clean _ clean', hfirst, hsecond]
    rfl

end Sprig
