import Sprig.Proofs.Grammar.Frame

/-!
A block reads what its contents read on their own.

The contents may be malformed in any way, as long as they mark no end and their braces are balanced.
Reading the block stops on its closing brace. Its statements are those of the contents read as a
program, and so are its diagnostics, except that they name the closing brace where the program would
have come to the end of the input. In particular no recovery inside the block leads out of it.

The proof is by induction on the length of the contents. Blocks inside of them are shorter, so they
behave alike in the block and in the program; with that the two runs are linked throughout.
-/

namespace Sprig

open Token

/-- The statement of the theorem for one list of tokens, at every place where it can stand. -/
def Contained (t : List Token) : Prop :=
  ∀ (n : Nat) (c : Cursor) (lb rb : Token) (u : List Token),
    c.rest = lb :: (t ++ rb :: u) → rb.kind = .rbrace → 0 < c.depth → t.length + 1 < n →
    ∃ c', (Nested.within n).block c = (some (Parsed.ofTokens t).program.statements, c') ∧
      c'.rest = rb :: u ∧ c'.depth = c.depth - 1 ∧
      c'.diagnostics = c.diagnostics ++
        (Parsed.ofTokens t).diagnostics.map (·.rename Kind.endToBrace)

theorem Kind.endToBrace_of_ne {k : Kind} (h : k ≠ .eof) : k.endToBrace = k := if_neg h

theorem Kind.endToBrace_ne (k : Kind) : k.endToBrace ≠ .eof := by
  unfold endToBrace
  split
  · decide
  · assumption

namespace Frame

variable {F : Frame} {v : Nat} {c c' : Cursor}

/-- Diagnostics from inside a block mention no end of the input, so a frame leaves them alone. -/
theorem rename_endToBrace (F : Frame) (d : Diagnostic) :
    (d.rename Kind.endToBrace).rename F.rename = d.rename Kind.endToBrace := by
  cases d <;> simp only [Diagnostic.rename, F.rename_of_ne _ (Kind.endToBrace_ne _)]

/-- Blocks with shorter contents keep the runs linked: both read what the contents read. -/
theorem block_agree {n n' : Nat} (hc : ∀ t, Enclosed 0 t → t.length + 1 < v → Contained t)
    (h : F.Ready v c c') (hk : c.kind = .lbrace) (hn : v ≤ n) (hn' : v ≤ n') :
    Agree (F.Done v) (F.Failed v) ((Nested.within n).body (n + 1) c)
      ((Nested.within n').body (n' + 1) c') := by
  obtain ⟨s, a⟩ := h
  cases s with
  | nil =>
      rw [a.kind_nil.1] at hk
      rcases F.ends with ⟨hx, -⟩ | ⟨hx, -⟩ <;> rw [hx] at hk <;> cases hk
  | cons lb s =>
      obtain ⟨hlb, hlb'⟩ := a.kind
      rw [hlb] at hk
      obtain ⟨-, -, e⟩ := enclosed_cons.mp a.enclosed
      rw [hk] at e
      obtain ⟨t, rb, u, rfl, hrb, et, eu⟩ := Enclosed.split (g := 0) (h := 0) e
      have hl := a.length
      simp only [List.length_cons, List.length_append] at hl
      have hd : c.depth = F.level + 1 := by rw [a.depth, hlb, hk]; rfl
      have hd' : c'.depth = F.level' + 1 := by rw [a.depth', hlb', hk]; rfl
      obtain ⟨d, hb, hr, hdd, hds⟩ := hc t et (by omega) (n + 1) c lb rb (u ++ F.after)
        (by rw [a.rest]; simp) hrb (by omega) (by omega)
      obtain ⟨d', hb', hr', hdd', hds'⟩ := hc t et (by omega) (n' + 1) c' lb rb (u ++ F.after')
        (by rw [a.rest']; simp) hrb (by omega) (by omega)
      rw [show (Nested.within n).body (n + 1) c = (Nested.within (n + 1)).block c from rfl,
        show (Nested.within n').body (n' + 1) c' = (Nested.within (n' + 1)).block c' from rfl,
        hb, hb']
      refine .read _ ⟨1, rb, u, ⟨hr, hr', ?_, ?_, ?_, ?_, ?_⟩, by rw [hrb]; rfl⟩
      · rw [hdd, hd, Cursor.kind, hr, kindOf_cons, hrb]; rfl
      · rw [hdd', hd', Cursor.kind, hr', kindOf_cons, hrb]; rfl
      · obtain ⟨ds, h, h'⟩ := a.diagnostics
        refine ⟨ds ++ (Parsed.ofTokens t).diagnostics.map (·.rename Kind.endToBrace), ?_, ?_⟩
        · simp [hds, h, Function.comp_def, F.rename_endToBrace]
        · simp [hds', h']
      · exact enclosed_cons.mpr ⟨by rw [hrb]; decide, fun _ => Nat.one_pos, by rwa [hrb]⟩
      · simp only [List.length_cons]
        omega

/-- The block on which `c` stands, beside its contents as a program. -/
def ofBlock (c : Cursor) (rb : Token) (u : List Token) (hrb : rb.kind = .rbrace)
    (hd : 0 < c.depth) : Frame where
  after := rb :: u
  after' := []
  level := c.depth
  level' := 0
  before := c.diagnostics
  before' := #[]
  rename := Kind.endToBrace
  rename_of_ne _ hk := Kind.endToBrace_of_ne hk
  rename_after := hrb
  ends := .inl ⟨hrb, hd, rfl⟩

section

variable {rb : Token} {u : List Token} {hrb : rb.kind = .rbrace} {hd : 0 < c.depth}

/-- The runs start side by side: behind the opening brace, and at the start of the contents. -/
theorem ofBlock_ready {t : List Token} {lb : Token} (hrest : c.rest = lb :: (t ++ rb :: u))
    (e : Enclosed 0 t) : (ofBlock c rb u hrb hd).Ready t.length c.advance (Cursor.start t) := by
  refine ⟨t, ?_, ?_, ?_, ?_, ⟨#[], ?_, rfl⟩, e, Nat.le_refl _⟩
  · rw [c.advance_rest, hrest]; rfl
  · exact (List.append_nil t).symm
  · rw [c.advance_depth, c.advance_kind]; rfl
  · rfl
  · rw [c.advance_diagnostics, Array.map_empty, Array.append_empty]; rfl

/-- Behind the contents the block stands on its closing brace and the program is at its end. -/
theorem ofBlock_passed {d d' : Cursor} (h : (ofBlock c rb u hrb hd).Passed d d') :
    d.rest = rb :: u ∧ d.kind = .rbrace ∧ d'.kind = .eof := by
  have hr : d.rest = rb :: u := by
    rw [h.rest]
    change Cursor.leave (rb :: u) = rb :: u
    rw [Cursor.leave, kindOf_cons, hrb, if_neg (by decide)]
  refine ⟨hr, by rw [Cursor.kind, hr, kindOf_cons, hrb], ?_⟩
  rw [Cursor.kind, h.rest']
  rfl

end

end Frame

theorem contained_of_enclosed (t : List Token) (e : Enclosed 0 t) : Contained t := by
  induction hl : t.length using Nat.strongRecOn generalizing t with
  | ind l ih =>
      intro n c lb rb u hrest hrb hd hn
      obtain ⟨n, rfl⟩ : ∃ k, n = k + 1 := ⟨n - 1, by omega⟩
      have hkeeps : (Frame.ofBlock c rb u hrb hd).link.Keeps (.within n) (.within (t.length + 1))
          (t.length + 1) := by
        refine Link.keeps_within (t.length + 1) ?_ _ _ _ (Nat.le_refl _) (by omega)
          (Nat.le_refl _)
        intro m k k' hm hk hk' _ v hv d d' h hlb
        exact Frame.block_agree (fun t' e' hlt => ih t'.length (by omega) t' e' rfl)
          h hlb (by omega) (by omega)
      obtain ⟨ss, d, d', k, k', hs, hs', hpassed, -, -⟩ := Frame.run Nested.endsBlock
        Nested.endsProgram (n + 1) (t.length + 1) hkeeps (Frame.ofBlock_ready hrest e)
        (Nat.lt_succ_self _) (fun k hk => ⟨hk, (Bool.or_eq_false_iff.mp hk).2⟩) (fun _ => rfl)
        (by omega) (by omega)
      obtain ⟨hr, hk, hk'⟩ := Frame.ofBlock_passed hpassed
      have hstop : Nested.endsBlock d.kind := by rw [hk]; rfl
      have hstop' : Nested.endsProgram d'.kind := by rw [hk']; rfl
      rw [Nested.statements_of_stop _ hstop, Frame.andThen, List.append_nil] at hs
      rw [Nested.statements_of_stop _ hstop', Frame.andThen, List.append_nil] at hs'
      obtain ⟨ds, hds, hds'⟩ := hpassed.diagnostics
      rw [Parsed.ofTokens_of_statements hs']
      refine ⟨d, Nested.body_of_statements _ hs, hr, ?_, ?_⟩
      · rw [hpassed.depth, hk]; rfl
      · rw [hds, hds', show (Frame.ofBlock c rb u hrb hd).before' = #[] from rfl,
          Array.empty_append]
        rfl

/-- With the cursor on the opening brace of a block and `outer` braces open around it, the block
ends on its own closing brace and reads what its contents read as a program. Any bound `n` will do
that lets the contents in. -/
theorem block_reads_contents (n outer : Nat) (c : Cursor) (lb rb : Token) (t u : List Token)
    (hrest : c.rest = lb :: (t ++ rb :: u)) (hlb : lb.kind = .lbrace) (hrb : rb.kind = .rbrace)
    (counted : c.depth = lb.kind.nest outer) (free : EofFree t) (balanced : Balanced t)
    (enough : t.length + 1 < n) :
    ∃ c', (Nested.within n).block c = (some (Parsed.ofTokens t).program.statements, c') ∧
      c'.rest = rb :: u ∧ c'.depth = outer ∧
      c'.diagnostics = c.diagnostics ++
        (Parsed.ofTokens t).diagnostics.map (·.rename Kind.endToBrace) := by
  rw [hlb] at counted
  obtain ⟨c', hblock, hrest', hdepth, hdiag⟩ := contained_of_enclosed t ⟨balanced, free⟩ n c lb rb u
    hrest hrb (by rw [counted]; exact Nat.succ_pos outer) enough
  exact ⟨c', hblock, hrest', by rw [hdepth, counted]; rfl, hdiag⟩

/-- The contents are `let { a } ; b ; return`: the first statement is given up together with its
braces, and the last one runs into the closing brace. -/
theorem block_reads_contents_malformed :
    let t : List Token := [⟨.kwLet, "let"⟩, .symbol .lbrace, ⟨.ident, "a"⟩, .symbol .rbrace,
      .symbol .semicolon, ⟨.ident, "b"⟩, .symbol .semicolon, ⟨.kwReturn, "return"⟩]
    let u : List Token := [⟨.ident, "d"⟩]
    let c : Cursor := ⟨.symbol .lbrace :: (t ++ .symbol .rbrace :: u), 1, #[], 0⟩
    ∃ c', (Nested.within 10).block c = (some [.expr (.ident "b")], c') ∧
      c'.rest = .symbol .rbrace :: u ∧ c'.depth = 0 ∧
      c'.diagnostics = #[.unexpected .ident .lbrace, .noOperand .rbrace] := by
  intro t u c
  have hs : (Parsed.ofTokens t).program.statements = [.expr (.ident "b")] := by rfl
  have hd : (Parsed.ofTokens t).diagnostics = #[.unexpected .ident .lbrace, .noOperand .eof] := by
    rfl
  obtain ⟨c', hblock, hrest, hdepth, hdiag⟩ := block_reads_contents 10 0 c (.symbol .lbrace)
    (.symbol .rbrace) t u rfl rfl rfl rfl (by decide) (by decide) (by decide)
  rw [hs] at hblock
  rw [hd] at hdiag
  exact ⟨c', hblock, hrest, hdepth, hdiag.trans (by simp [c, Diagnostic.rename, Kind.endToBrace])⟩

end Sprig
