import Sprig.Proofs.Grammar.Agreement
import Sprig.Proofs.Grammar.Braces

/-!
Two runs over the same tokens in different surroundings.

A `Frame` says what lies behind the common tokens in either run, how deep in braces they lie and
which diagnostics were recorded before them. Both runs see the common tokens alike. They may tell
apart only what follows: the closing brace of a block in one run and the end of the input in the
other. Every diagnostic recorded in the first run is that of the second under a change of kinds,
which the frame gives as well. `Frame.link` is this correspondence, and `Frame.turn` follows it
through one turn of a statement list, recovery included.
-/

namespace Sprig

open Token

/-- The diagnostic with each kind that it mentions replaced. -/
def Diagnostic.rename (f : Kind → Kind) : Diagnostic → Diagnostic
  | unexpected expected got => unexpected (f expected) (f got)
  | noOperand kind => noOperand (f kind)
  | badInteger text => badInteger text

/-- Reads the end of the input as the closing brace of a block. -/
def Kind.endToBrace (k : Kind) : Kind :=
  if k = .eof then .rbrace else k

structure Frame where
  after : List Token
  after' : List Token
  level : Nat
  level' : Nat
  before : Array Diagnostic
  before' : Array Diagnostic
  rename : Kind → Kind
  rename_of_ne : ∀ k, k ≠ .eof → rename k = k
  rename_after : kindOf after = rename (kindOf after')
  ends : kindOf after = .rbrace ∧ 0 < level ∧ after' = [] ∨
    kindOf after = .semicolon ∧ kindOf after' = .semicolon

namespace Frame

/-- The cursors stand on the first of the common tokens `s`, in front of which the common tokens
have opened `h` braces, or on what follows if `s` is empty. -/
structure At (F : Frame) (h v : Nat) (s : List Token) (c c' : Cursor) : Prop where
  rest : c.rest = s ++ F.after
  rest' : c'.rest = s ++ F.after'
  depth : c.depth = c.kind.nest (F.level + h)
  depth' : c'.depth = c'.kind.nest (F.level' + h)
  diagnostics : ∃ ds : Array Diagnostic, c.diagnostics = F.before ++ ds.map (·.rename F.rename) ∧
    c'.diagnostics = F.before' ++ ds
  enclosed : Enclosed h s
  length : s.length ≤ v

namespace At

variable {F : Frame} {h v w : Nat} {s : List Token} {t : Token} {c c' : Cursor}

theorem kind (a : F.At h v (t :: s) c c') : c.kind = t.kind ∧ c'.kind = t.kind := by
  rw [Cursor.kind, Cursor.kind, a.rest, a.rest']
  exact ⟨rfl, rfl⟩

theorem kind_nil (a : F.At h v [] c c') :
    c.kind = kindOf F.after ∧ c'.kind = kindOf F.after' := by
  rw [Cursor.kind, Cursor.kind, a.rest, a.rest']
  exact ⟨rfl, rfl⟩

theorem kind_rename (a : F.At h v s c c') : c.kind = F.rename c'.kind := by
  cases s with
  | nil => rw [a.kind_nil.1, a.kind_nil.2, F.rename_after]
  | cons t s => rw [a.kind.1, a.kind.2, F.rename_of_ne _ (enclosed_cons.mp a.enclosed).1]

theorem mono (a : F.At h v s c c') (hvw : v ≤ w) : F.At h w s c c' :=
  { a with length := Nat.le_trans a.length hvw }

theorem advance (a : F.At h v (t :: s) c c') :
    F.At (t.kind.nest h) (v - 1) s c.advance c'.advance := by
  obtain ⟨-, hr, e⟩ := enclosed_cons.mp a.enclosed
  constructor
  · simp [a.rest]
  · simp [a.rest']
  · rw [c.advance_depth, ← c.advance_kind, a.depth, a.kind.1, Kind.nest_add hr]
  · rw [c'.advance_depth, ← c'.advance_kind, a.depth', a.kind.2, Kind.nest_add hr]
  · simpa using a.diagnostics
  · exact e
  · have := a.length
    simp only [List.length_cons] at this
    omega

theorem record (a : F.At h v s c c') (d : Diagnostic) :
    F.At h v s (c.record (d.rename F.rename)) (c'.record d) := by
  obtain ⟨ds, hd, hd'⟩ := a.diagnostics
  refine { a with diagnostics := ⟨ds.push d, ?_, ?_⟩ }
  · simp [hd]
  · simp [hd']

end At

def Ready (F : Frame) (v : Nat) (c c' : Cursor) : Prop := ∃ s, F.At 0 v s c c'

/-- The cursors stand on the last token of a construct, with no brace left open. -/
def Done (F : Frame) (v : Nat) (c c' : Cursor) : Prop :=
  ∃ h t s, F.At h v (t :: s) c c' ∧ t.kind.nest h = 0

def Failed (F : Frame) (v : Nat) (c c' : Cursor) : Prop := ∃ h s, F.At h v s c c'

variable {F : Frame} {v w : Nat} {c c' : Cursor}

theorem Ready.kind_eq (h : F.Ready v c c') :
    c.kind = c'.kind ∨ Nested.endsBlock c.kind ∧ Nested.endsBlock c'.kind := by
  obtain ⟨s, a⟩ := h
  cases s with
  | nil =>
      rw [a.kind_nil.1, a.kind_nil.2]
      rcases F.ends with ⟨hx, -, hy⟩ | ⟨hx, hy⟩
      · rw [hx, hy]
        exact .inr ⟨rfl, rfl⟩
      · exact .inl (hx.trans hy.symm)
  | cons t s => exact .inl (a.kind.1.trans a.kind.2.symm)

theorem Ready.done (h : F.Ready v c c') (hk : c.kind.isInner) : F.Done v c c' ∧ 0 < v := by
  obtain ⟨s, a⟩ := h
  cases s with
  | nil =>
      rw [a.kind_nil.1] at hk
      rcases F.ends with ⟨hx, -⟩ | ⟨hx, -⟩ <;> rw [hx] at hk <;> cases hk
  | cons t s =>
      rw [a.kind.1] at hk
      refine ⟨⟨0, t, s, a, ?_⟩, Nat.lt_of_lt_of_le (Nat.succ_pos _) a.length⟩
      apply Kind.nest_of_ne <;> intro ht <;> rw [ht] at hk <;> cases hk

theorem Done.ready_advance (h : F.Done v c c') : F.Ready (v - 1) c.advance c'.advance := by
  obtain ⟨h, t, s, a, h0⟩ := h
  exact ⟨s, h0 ▸ a.advance⟩

theorem Done.text_eq (h : F.Done v c c') : c.text = c'.text := by
  obtain ⟨h, t, s, a, -⟩ := h
  rw [Cursor.text, Cursor.text, a.rest, a.rest']
  rfl

theorem Done.unexpected {k : Kind} (h : F.Done v c c') (hk : k ≠ .eof) :
    F.Failed v (c.record (.unexpected k c.peek)) (c'.record (.unexpected k c'.peek)) := by
  obtain ⟨h, t, s, a, -⟩ := h
  have hp : c.peek = F.rename c'.peek := by
    rw [← c.advance_kind, ← c'.advance_kind, a.advance.kind_rename]
  refine ⟨h, t :: s, ?_⟩
  rw [hp]
  simpa only [Diagnostic.rename, F.rename_of_ne k hk] using a.record (.unexpected k c'.peek)

/-- The correspondence of two runs in a frame. -/
def link (F : Frame) : Link where
  ready := F.Ready
  done := F.Done
  failed := F.Failed
  ready_mono hvw h := h.imp fun _ a => a.mono hvw
  done_mono hvw h := h.imp fun _ h => h.imp fun _ h => h.imp fun _ a => ⟨a.1.mono hvw, a.2⟩
  failed_mono hvw h := h.imp fun _ h => h.imp fun _ a => a.mono hvw
  kind_eq h := h.kind_eq
  done_of_ready h hk := h.done hk
  text_eq h := h.text_eq
  ready_advance h := h.ready_advance
  noOperand := by
    intro v c c' ⟨s, a⟩
    refine ⟨0, s, ?_⟩
    rw [a.kind_rename]
    exact a.record (.noOperand c'.kind)
  unexpected h hk := h.unexpected hk
  badInteger := by
    intro v c c' text ⟨h, t, s, a, _⟩
    exact ⟨h, t :: s, a.record (.badInteger text)⟩

/-- The cursors have left the common tokens and stand where the list that holds them goes on. -/
structure Passed (F : Frame) (c c' : Cursor) : Prop where
  rest : c.rest = Cursor.leave F.after
  rest' : c'.rest = Cursor.leave F.after'
  depth : c.depth = c.kind.nest F.level
  depth' : c'.depth = c'.kind.nest F.level'
  diagnostics : ∃ ds : Array Diagnostic, c.diagnostics = F.before ++ ds.map (·.rename F.rename) ∧
    c'.diagnostics = F.before' ++ ds

/-- After one turn of a list: closer to the end of the common tokens, or behind them. -/
def Onward (F : Frame) (v : Nat) (c c' : Cursor) : Prop :=
  (∃ w < v, F.Ready w c c') ∨ F.Passed c c'

theorem endsList (F : Frame) : Cursor.EndsList F.level F.after := by
  rcases F.ends with ⟨hx, hl, -⟩ | ⟨hx, -⟩
  · exact .inl ⟨hx, hl⟩
  · exact .inr (.inr hx)

theorem endsList' (F : Frame) : Cursor.EndsList F.level' F.after' := by
  rcases F.ends with ⟨-, -, hy⟩ | ⟨-, hy⟩
  · exact .inr (.inl hy)
  · exact .inr (.inr hy)

theorem onward_of_settled (h : F.link.Settled v c c') : F.Onward v c.advance c'.advance := by
  rcases h with hd | ⟨⟨s, a⟩, hk⟩
  · have hr := hd.ready_advance
    obtain ⟨h, t, s, a, -⟩ := hd
    have hl := a.length
    rw [List.length_cons] at hl
    exact .inl ⟨v - 1, by omega, hr⟩
  cases s with
  | nil =>
      have hx : kindOf F.after = .semicolon := a.kind_nil.1 ▸ hk
      have hy : kindOf F.after' = .semicolon := by
        rcases F.ends with ⟨hr, -⟩ | ⟨-, hy⟩
        · rw [hx] at hr
          cases hr
        · exact hy
      have hk' : c'.kind = .semicolon := a.kind_nil.2.trans hy
      refine .inr ⟨?_, ?_, ?_, ?_, ?_⟩
      · rw [c.advance_rest, a.rest, Cursor.leave, if_pos hx, List.nil_append]
      · rw [c'.advance_rest, a.rest', Cursor.leave, if_pos hy, List.nil_append]
      · rw [c.advance_depth, a.depth, hk, c.advance_kind]; rfl
      · rw [c'.advance_depth, a.depth', hk', c'.advance_kind]; rfl
      · simpa using a.diagnostics
  | cons t s =>
      have hl := a.length
      rw [List.length_cons] at hl
      have ha := a.advance
      rw [← a.kind.1, hk] at ha
      exact .inl ⟨v - 1 - 1, by omega, s, ha⟩

theorem onward_of_failed (h : F.Failed v c c') :
    F.Onward v (c.resumed F.level) (c'.resumed F.level') := by
  obtain ⟨h, s, a⟩ := h
  obtain ⟨hr, hd, -⟩ := Cursor.resumed_of_enclosed a.rest a.depth a.enclosed F.endsList
  obtain ⟨hr', hd', -⟩ := Cursor.resumed_of_enclosed a.rest' a.depth' a.enclosed F.endsList'
  have hdiag := a.diagnostics
  rw [← c.resumed_diagnostics F.level, ← c'.resumed_diagnostics F.level'] at hdiag
  cases hs : resume h s with
  | none =>
      simp only [hs] at hr hr'
      exact .inr ⟨hr, hr', hd, hd', hdiag⟩
  | some s' =>
      simp only [hs] at hr hr'
      obtain ⟨e, hlt⟩ := a.enclosed.resume hs
      exact .inl ⟨s'.length, Nat.lt_of_lt_of_le hlt a.length, s',
        hr, hr', hd, hd', hdiag, e, Nat.le_refl _⟩

/-- Statements in front of those that a list still yields. -/
def andThen (ss : Block) (r : Block × Cursor) : Block × Cursor := (ss ++ r.1, r.2)

theorem andThen_andThen (ss ts : Block) (r : Block × Cursor) :
    andThen ss (andThen ts r) = andThen (ss ++ ts) r := by
  rw [andThen, andThen, andThen, List.append_assoc]

section

variable {p q : Nested} {m : Nat}

/-- A failed statement adds nothing, and the list goes on where it was resumed. -/
theorem statements_resumed {stop : Kind → Bool} {level n : Nat} {c d : Cursor}
    (hs : stop c.kind = false) (h : p.statement c = (none, d))
    (hleft : (d.recover level).depth < level → stop (d.recover level).kind) :
    p.statements stop level (n + 1) c = p.statements stop level n (d.resumed level) := by
  rw [p.statements_of_failed hs h, Cursor.resumed]
  split
  · next hl => rw [p.statements_of_stop (hleft hl)]
  · rfl

/-- One turn of both lists adds the same statements and keeps the runs linked. -/
theorem turn {stop stop' : Kind → Bool} (hp : F.link.Keeps p q m) (h : F.Ready v c c') (hv : v < m)
    (hs : stop c.kind = false) (hs' : stop' c'.kind = false)
    (hrb : kindOf F.after = .rbrace → stop .rbrace) :
    ∃ ss d d',
      (∀ n, p.statements stop F.level (n + 1) c = andThen ss (p.statements stop F.level n d)) ∧
      (∀ n, q.statements stop' F.level' (n + 1) c' =
        andThen ss (q.statements stop' F.level' n d')) ∧
      F.Onward v d d' := by
  have hst := Link.statement hp h hv
  generalize hx : p.statement c = x at hst
  generalize hy : q.statement c' = y at hst
  cases hst with
  | @read st d d' hd =>
      exact ⟨[st], d.advance, d'.advance, fun n => p.statements_of_read hs hx,
        fun n => q.statements_of_read hs' hy, onward_of_settled hd⟩
  | @failed d d' hf =>
      refine ⟨[], d.resumed F.level, d'.resumed F.level', ?_, ?_, onward_of_failed hf⟩
      · intro n
        refine statements_resumed hs hx fun hl => ?_
        obtain ⟨h, s, a⟩ := hf
        obtain ⟨hk, hr⟩ :=
          (Cursor.resumed_of_enclosed a.rest a.depth a.enclosed F.endsList).2.2 hl
        rw [Cursor.kind, hr, hk]
        exact hrb hk
      · intro n
        refine statements_resumed hs' hy fun hl => ?_
        obtain ⟨h, s, a⟩ := hf
        obtain ⟨hk, -⟩ :=
          (Cursor.resumed_of_enclosed a.rest' a.depth' a.enclosed F.endsList').2.2 hl
        -- the second run never lies before a closing brace
        rcases F.ends with ⟨-, -, hy⟩ | ⟨-, hy⟩
        · rw [hy] at hk
          cases hk
        · rw [hy] at hk
          cases hk

/-- Both lists yield the same statements up to the end of the common tokens. Each turn takes one of
the tokens in view, which bounds how much of the bounds is used up. -/
theorem run (stop stop' : Kind → Bool) (n n' : Nat) (hp : F.link.Keeps p q m)
    (h : F.Ready v c c') (hv : v < m)
    (hstop : ∀ k, Nested.endsBlock k = false → stop k = false ∧ stop' k = false)
    (hrb : kindOf F.after = .rbrace → stop .rbrace) (hn : v < n) (hn' : v < n') :
    ∃ ss d d' k k',
      p.statements stop F.level n c = andThen ss (p.statements stop F.level k d) ∧
      q.statements stop' F.level' n' c' = andThen ss (q.statements stop' F.level' k' d') ∧
      F.Passed d d' ∧ n ≤ k + v + 1 ∧ n' ≤ k' + v + 1 := by
  induction v using Nat.strongRecOn generalizing c c' n n' with
  | ind v ih =>
      by_cases hend : Nested.endsBlock c.kind
      · -- inside the common tokens no list ends, so the cursors have left them
        obtain ⟨s, a⟩ := h
        cases s with
        | cons t s =>
            obtain ⟨he, hr, -⟩ := enclosed_cons.mp a.enclosed
            rw [a.kind.1] at hend
            simp only [Nested.endsBlock, Bool.or_eq_true, beq_iff_eq] at hend
            rcases hend with hk | hk
            · exact absurd (hr hk) (Nat.lt_irrefl 0)
            · exact absurd hk he
        | nil =>
            refine ⟨[], c, c', n, n', rfl, rfl, ?_, by omega, by omega⟩
            rw [a.kind_nil.1] at hend
            have hx : kindOf F.after ≠ .semicolon := by
              intro hk
              rw [hk] at hend
              cases hend
            have hy : kindOf F.after' ≠ .semicolon := by
              rcases F.ends with ⟨-, -, hy⟩ | ⟨hk, -⟩
              · rw [hy]
                exact fun hk => by cases hk
              · exact absurd hk hx
            exact ⟨by rw [a.rest, Cursor.leave, if_neg hx, List.nil_append],
              by rw [a.rest', Cursor.leave, if_neg hy, List.nil_append],
              a.depth, a.depth', a.diagnostics⟩
      · rw [Bool.not_eq_true] at hend
        have hend' : Nested.endsBlock c'.kind = false := by
          rcases h.kind_eq with hk | ⟨hk, -⟩
          · rw [← hk, hend]
          · rw [hend] at hk
            cases hk
        obtain ⟨n, rfl⟩ : ∃ k, n = k + 1 := ⟨n - 1, by omega⟩
        obtain ⟨n', rfl⟩ : ∃ k, n' = k + 1 := ⟨n' - 1, by omega⟩
        obtain ⟨ss, d, d', ht, ht', hon⟩ :=
          turn hp h hv (hstop _ hend).1 (hstop _ hend').2 hrb
        rcases hon with ⟨w, hw, hr⟩ | hpassed
        · obtain ⟨ts, e, e', k, k', hr, hr', hpassed, hk, hk'⟩ :=
            ih w hw n n' hr (by omega) (by omega) (by omega)
          exact ⟨ss ++ ts, e, e', k, k', by rw [ht, hr, andThen_andThen],
            by rw [ht', hr', andThen_andThen], hpassed, by omega, by omega⟩
        · exact ⟨ss, d, d', n, n', ht n, ht' n', hpassed, by omega, by omega⟩

end

end Frame

end Sprig
