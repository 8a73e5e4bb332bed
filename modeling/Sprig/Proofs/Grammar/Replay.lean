import Sprig.Proofs.Grammar.Agreement

/-!
A run repeats itself on the same tokens.

What a statement list yields depends on the tokens and the depth at which it starts. It does not
depend on the diagnostics recorded before, which stay in front of the new ones, nor on the bounds,
provided that they exceed the number of tokens. The tokens are arbitrary here: they may mark an end
anywhere, and their braces need not match.
-/

namespace Sprig

/-- The cursors stand at the same place, and the first one has recorded `ds` before. -/
structure Replays (ds : Array Diagnostic) (v : Nat) (c c' : Cursor) : Prop where
  rest : c.rest = c'.rest
  depth : c.depth = c'.depth
  diagnostics : c.diagnostics = ds ++ c'.diagnostics
  length : c.rest.length ≤ v

theorem Cursor.length_skipFrom_le (level : Nat) (ts : List Token) (depth : Nat) :
    (skipFrom level ts depth).1.length ≤ ts.length := by
  induction ts generalizing depth with
  | nil => exact Nat.le_refl 0
  | cons t ts ih =>
      rw [skipFrom]
      split
      · exact Nat.le_refl _
      · exact Nat.le_succ_of_le (ih _)

namespace Replays

variable {ds : Array Diagnostic} {v w : Nat} {c c' : Cursor}

theorem mono (h : Replays ds v c c') (hvw : v ≤ w) : Replays ds w c c' :=
  { h with length := Nat.le_trans h.length hvw }

theorem kind (h : Replays ds v c c') : c.kind = c'.kind := by
  rw [Cursor.kind, Cursor.kind, h.rest]

theorem pos (h : Replays ds v c c') (hk : c.kind ≠ .eof) : 0 < v := by
  have hl := h.length
  cases hr : c.rest with
  | nil => exact absurd (by rw [Cursor.kind, hr]; rfl) hk
  | cons t ts =>
      rw [hr, List.length_cons] at hl
      omega

theorem advance (h : Replays ds v c c') : Replays ds (v - 1) c.advance c'.advance := by
  have hl := h.length
  constructor
  · rw [c.advance_rest, c'.advance_rest, h.rest]
  · rw [c.advance_depth, c'.advance_depth, Cursor.peek, Cursor.peek, h.rest, h.depth]
  · rw [c.advance_diagnostics, c'.advance_diagnostics, h.diagnostics]
  · rw [c.length_advance]
    omega

theorem record (h : Replays ds v c c') (d : Diagnostic) :
    Replays ds v (c.record d) (c'.record d) :=
  { h with diagnostics := by simp [h.diagnostics] }

theorem recover (h : Replays ds v c c') (level : Nat) :
    Replays ds v (c.recover level) (c'.recover level) := by
  have hskip : Cursor.skipFrom level c.rest c.depth = Cursor.skipFrom level c'.rest c'.depth := by
    rw [h.rest, h.depth]
  exact ⟨congrArg Prod.fst hskip, congrArg Prod.snd hskip, h.diagnostics,
    Nat.le_trans (Cursor.length_skipFrom_le _ _ _) h.length⟩

/-- Standing at the same place is a link in every respect. -/
def link (ds : Array Diagnostic) : Link where
  ready := Replays ds
  done := Replays ds
  failed := Replays ds
  ready_mono hvw h := h.mono hvw
  done_mono hvw h := h.mono hvw
  failed_mono hvw h := h.mono hvw
  kind_eq h := .inl h.kind
  done_of_ready h hk := ⟨h, h.pos fun he => by rw [he] at hk; cases hk⟩
  text_eq h := by rw [Cursor.text, Cursor.text, h.rest]
  ready_advance h := h.advance
  noOperand h := by rw [h.kind]; exact h.record _
  unexpected h _ := by rw [Cursor.peek, Cursor.peek, h.rest]; exact h.record _
  badInteger h := h.record _

theorem of_settled (h : (link ds).Settled v c c') : Replays ds v c c' := by
  rcases h with hd | ⟨hr, -⟩
  · exact hd
  · exact hr.mono (Nat.sub_le v 1)

variable {p q : Nested} {m : Nat}

theorem statements {stop : Kind → Bool} (level n n' : Nat) (hp : (link ds).Keeps p q m)
    (hstop : stop .eof) (h : Replays ds v c c') (hm : v < m) (hn : v < n) (hn' : v < n') :
    ∃ ss d d', p.statements stop level n c = (ss, d) ∧
      q.statements stop level n' c' = (ss, d') ∧ Replays ds v d d' := by
  induction n generalizing n' v c c' with
  | zero => omega
  | succ n ih =>
      obtain ⟨n', rfl⟩ : ∃ k, n' = k + 1 := ⟨n' - 1, by omega⟩
      cases hs : stop c.kind with
      | true =>
          exact ⟨[], c, c', p.statements_of_stop hs, q.statements_of_stop (h.kind ▸ hs), h⟩
      | false =>
          have hs' : stop c'.kind = false := h.kind ▸ hs
          have hpos : 0 < v := h.pos fun he => by rw [he, hstop] at hs; cases hs
          have hst := Link.statement hp h hm
          generalize hx : p.statement c = x at hst
          generalize hy : q.statement c' = y at hst
          cases hst with
          | @read st d d' hd =>
              obtain ⟨ss, e, e', he, he', hr⟩ :=
                ih n' (of_settled hd).advance (by omega) (by omega) (by omega)
              exact ⟨st :: ss, e, e', by rw [p.statements_of_read hs hx, he],
                by rw [q.statements_of_read hs' hy, he'], hr.mono (by omega)⟩
          | @failed d d' hf =>
              have hrec : Replays ds v (d.recover level) (d'.recover level) := hf.recover level
              rw [p.statements_of_failed hs hx, q.statements_of_failed hs' hy, ← hrec.depth]
              split
              · exact ⟨[], _, _, rfl, rfl, hrec⟩
              · obtain ⟨ss, e, e', he, he', hr⟩ :=
                  ih n' hrec.advance (by omega) (by omega) (by omega)
                exact ⟨ss, e, e', he, he', hr.mono (by omega)⟩

theorem keeps_within {n n' : Nat} (hn : m ≤ n) (hn' : m ≤ n') :
    (link ds).Keeps (.within n) (.within n') m := by
  refine Link.keeps_within m ?_ m n n' (Nat.le_refl _) hn hn'
  intro m k k' _ hk hk' hp v hv c c' h hlb
  have h : Replays ds v c c' := h
  have hpos : 0 < v := h.pos (by rw [hlb]; decide)
  obtain ⟨ss, d, d', hs, hs', hr⟩ := statements c.depth (k + 1) (k' + 1) hp
    (show Nested.endsBlock .eof from rfl) h.advance (by omega) (by omega) (by omega)
  rw [Nested.body_of_statements _ hs, Nested.body_of_statements _ (h.depth ▸ hs')]
  exact .read _ (hr.mono (by omega))

end Replays

end Sprig
