import Sprig.Proofs.Grammar.Containment
import Sprig.Proofs.Grammar.Replay

/-!
Programs are read statement by statement.

A `;` outside of all braces is a boundary that nothing crosses. Whatever stands before it,
well-formed or not, it yields the same statements and the same diagnostics with or without what
follows, and what follows is read as if it stood alone.
-/

namespace Sprig

open Token

theorem Token.Enclosed.of_append_semicolon {h : Nat} {s : List Token} {sc : Token}
    (hsc : sc.kind = .semicolon) (e : Enclosed h (s ++ [sc])) : Enclosed h s := by
  induction s generalizing h with
  | nil =>
      obtain ⟨-, -, e⟩ := enclosed_cons.mp e
      rw [hsc] at e
      exact e
  | cons t s ih =>
      obtain ⟨ht, hr, e⟩ := enclosed_cons.mp e
      exact enclosed_cons.mpr ⟨ht, hr, ih e⟩

namespace Frame

/-- The tokens before the `;` at which the program goes on with `ts`, beside the same tokens in a
program that ends there. -/
def ofSemicolon (sc : Token) (hsc : sc.kind = .semicolon) (ts : List Token) : Frame where
  after := sc :: ts
  after' := [sc]
  level := 0
  level' := 0
  before := #[]
  before' := #[]
  rename := id
  rename_of_ne _ _ := rfl
  rename_after := rfl
  ends := .inr ⟨hsc, hsc⟩

variable {sc : Token} {hsc : sc.kind = .semicolon} {s ts : List Token}

theorem ofSemicolon_ready (e : Enclosed 0 s) :
    (ofSemicolon sc hsc ts).Ready s.length (Cursor.start (s ++ sc :: ts))
      (Cursor.start (s ++ [sc])) :=
  ⟨s, rfl, rfl, rfl, rfl, ⟨#[], by simp [Cursor.start, ofSemicolon], rfl⟩, e, Nat.le_refl _⟩

theorem ofSemicolon_passed {d d' : Cursor} (h : (ofSemicolon sc hsc ts).Passed d d') :
    Replays d'.diagnostics ts.length d (Cursor.start ts) ∧ d'.kind = .eof := by
  have hr : d.rest = ts := by
    rw [h.rest, Cursor.leave]
    exact if_pos hsc
  have hr' : d'.rest = [] := by
    rw [h.rest', Cursor.leave]
    exact if_pos hsc
  obtain ⟨ds, hds, hds'⟩ := h.diagnostics
  have hid : ∀ d : Diagnostic, d.rename id = d := by intro d; cases d <;> rfl
  refine ⟨⟨hr, ?_, ?_, Nat.le_of_eq (congrArg _ hr)⟩,
    by rw [Cursor.kind, hr']; rfl⟩
  · rw [h.depth, Cursor.kind, hr]; rfl
  · simp [hds, hds', Cursor.start, ofSemicolon, hid]

/-- Both programs yield the same statements up to the `;`. There the second one ends, and the first
one is where a program that starts with `ts` begins. -/
theorem ofSemicolon_run (hsc : sc.kind = .semicolon) (e : Enclosed 0 s) (ts : List Token) :
    ∃ ss d d' k,
      (Nested.within ((s ++ sc :: ts).length + 1)).statements Nested.endsProgram 0
          ((s ++ sc :: ts).length + 1) (Cursor.start (s ++ sc :: ts)) =
        andThen ss
          ((Nested.within ((s ++ sc :: ts).length + 1)).statements Nested.endsProgram 0 k d) ∧
      (Nested.within ((s ++ [sc]).length + 1)).statements Nested.endsProgram 0
          ((s ++ [sc]).length + 1) (Cursor.start (s ++ [sc])) = (ss, d') ∧
      Replays d'.diagnostics ts.length d (Cursor.start ts) ∧ ts.length < k := by
  have hkeeps : (ofSemicolon sc hsc ts).link.Keeps
      (.within ((s ++ sc :: ts).length + 1)) (.within ((s ++ [sc]).length + 1)) (s.length + 1) := by
    refine Link.keeps_within (s.length + 1) ?_ _ _ _ (Nat.le_refl _) (by simp) (by simp)
    intro m k k' _ hk hk' _ v hv d d' h hlb
    exact block_agree (fun t e _ => contained_of_enclosed t e) h hlb (by omega) (by omega)
  obtain ⟨ss, d, d', k, k', hs, hs', hpassed, hk, -⟩ := run Nested.endsProgram
    Nested.endsProgram ((s ++ sc :: ts).length + 1) ((s ++ [sc]).length + 1) hkeeps
    (ofSemicolon_ready e) (Nat.lt_succ_self _)
    (fun k hk => ⟨(Bool.or_eq_false_iff.mp hk).2, (Bool.or_eq_false_iff.mp hk).2⟩)
    (fun hk => absurd (hk.symm.trans hsc) (by decide))
    (by rw [List.length_append]; omega) (by rw [List.length_append]; omega)
  obtain ⟨hreplay, heof⟩ := ofSemicolon_passed hpassed
  have hstop : Nested.endsProgram d'.kind := by rw [heof]; rfl
  rw [Nested.statements_of_stop _ hstop, andThen, List.append_nil] at hs'
  simp only [List.length_append, List.length_cons] at hk
  -- each turn of the list used up one of the tokens before `ts`, so the bound still suffices
  exact ⟨ss, d, d', k, hs, hs', hreplay, by omega⟩

end Frame

/-- Behind a `;` outside of all braces reading goes on as if nothing stood before it. -/
theorem Parsed.ofTokens_split {sc : Token} {s : List Token} (hsc : sc.kind = .semicolon)
    (e : Enclosed 0 s) (t₂ : List Token) :
    (ofTokens (s ++ sc :: t₂)).program.statements =
        (ofTokens (s ++ [sc])).program.statements ++ (ofTokens t₂).program.statements ∧
      (ofTokens (s ++ sc :: t₂)).diagnostics =
        (ofTokens (s ++ [sc])).diagnostics ++ (ofTokens t₂).diagnostics := by
  obtain ⟨ss, d, d', k, hs, hs', hreplay, hk⟩ := Frame.ofSemicolon_run hsc e t₂
  obtain ⟨ss₂, f, f', hf, hf', hend⟩ := Replays.statements 0 k (t₂.length + 1)
    (Replays.keeps_within (n := (s ++ sc :: t₂).length + 1)
      (by rw [List.length_append, List.length_cons]; omega) (Nat.le_refl _))
    (show Nested.endsProgram .eof from rfl) hreplay (Nat.lt_succ_self _) hk (Nat.lt_succ_self _)
  have hs : (Nested.within ((s ++ sc :: t₂).length + 1)).statements Nested.endsProgram 0
      ((s ++ sc :: t₂).length + 1) (Cursor.start (s ++ sc :: t₂)) = (ss ++ ss₂, f) :=
    hs.trans (congrArg (Frame.andThen ss) hf)
  rw [Parsed.ofTokens_of_statements hs, Parsed.ofTokens_of_statements hs',
    Parsed.ofTokens_of_statements hf']
  exact ⟨rfl, hend.diagnostics⟩

/-- Reading two lists of tokens one after another, with a boundary between them, is reading each
of them. -/
theorem ofTokens_append (t₁ t₂ : List Token) (free : EofFree t₁) (balanced : Balanced t₁)
    (boundary : t₁.getLast?.map Token.kind = some .semicolon) :
    (Parsed.ofTokens (t₁ ++ t₂)).program.statements =
        (Parsed.ofTokens t₁).program.statements ++ (Parsed.ofTokens t₂).program.statements ∧
      (Parsed.ofTokens (t₁ ++ t₂)).diagnostics =
        (Parsed.ofTokens t₁).diagnostics ++ (Parsed.ofTokens t₂).diagnostics := by
  obtain ⟨sc, hlast, hsc⟩ := Option.map_eq_some_iff.mp boundary
  obtain ⟨s, rfl⟩ := List.getLast?_eq_some_iff.mp hlast
  have e : Enclosed 0 s := Enclosed.of_append_semicolon hsc ⟨balanced, free⟩
  rw [List.append_assoc, List.singleton_append]
  exact Parsed.ofTokens_split hsc e t₂

/-- The malformed `let a { b } ;` costs neither the `d` behind it nor what is said of `return`. -/
theorem ofTokens_append_malformed :
    let t₁ : List Token := [⟨.kwLet, "let"⟩, ⟨.ident, "a"⟩, .symbol .lbrace, ⟨.ident, "b"⟩,
      .symbol .rbrace, .symbol .semicolon]
    let t₂ : List Token := [⟨.ident, "d"⟩, .symbol .semicolon, ⟨.kwReturn, "return"⟩]
    (Parsed.ofTokens (t₁ ++ t₂)).program.statements = [.expr (.ident "d")] ∧
      (Parsed.ofTokens (t₁ ++ t₂)).diagnostics =
        #[.unexpected .assign .lbrace, .noOperand .eof] := by
  intro t₁ t₂
  obtain ⟨hs, hd⟩ := ofTokens_append t₁ t₂ (by decide) (by decide) (by decide)
  exact ⟨hs.trans (by rfl), hd.trans (by rfl)⟩

end Sprig
