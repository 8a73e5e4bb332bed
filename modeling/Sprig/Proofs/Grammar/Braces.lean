import Sprig.Grammar.Statement

/-!
Braces in token lists, and where recovery stops among them.

`Token.Enclosed h s` holds of tokens without an end marker that close `h` braces opened in front of
them, close whatever they open, and close nothing else. Recovery inside such tokens stops at their
first `;` outside of braces, which `Token.resume` finds without regard to what follows them. If
there is none, recovery leaves them: it comes to what follows or, when that is the closing brace of
the list, to the token before it.
-/

namespace Sprig

namespace Token

/-- The tokens close `h` open braces and every brace they open, and no other. -/
def Closes : Nat → List Token → Prop
  | h, [] => h = 0
  | h, t :: ts => (t.kind = .rbrace → 0 < h) ∧ Closes (t.kind.nest h) ts

instance decidableCloses : ∀ (h : Nat) (ts : List Token), Decidable (Closes h ts)
  | h, [] => inferInstanceAs (Decidable (h = 0))
  | h, t :: ts =>
    have := decidableCloses (t.kind.nest h) ts
    inferInstanceAs (Decidable ((t.kind = .rbrace → 0 < h) ∧ Closes (t.kind.nest h) ts))

/-- Every brace has its partner. -/
def Balanced (ts : List Token) : Prop := Closes 0 ts

instance (ts : List Token) : Decidable (Balanced ts) := inferInstanceAs (Decidable (Closes 0 ts))

/-- No token marks the end of the input. -/
def EofFree (ts : List Token) : Prop := ∀ t ∈ ts, t.kind ≠ .eof

instance (ts : List Token) : Decidable (EofFree ts) :=
  inferInstanceAs (Decidable (∀ t ∈ ts, t.kind ≠ .eof))

structure Enclosed (h : Nat) (ts : List Token) : Prop where
  closes : Closes h ts
  eofFree : EofFree ts

theorem enclosed_nil {h : Nat} : Enclosed h [] ↔ h = 0 :=
  ⟨fun e => e.closes, fun e => ⟨e, by simp [EofFree]⟩⟩

theorem enclosed_cons {h : Nat} {t : Token} {ts : List Token} :
    Enclosed h (t :: ts) ↔
      t.kind ≠ .eof ∧ (t.kind = .rbrace → 0 < h) ∧ Enclosed (t.kind.nest h) ts := by
  constructor
  · intro ⟨⟨hr, hc⟩, he⟩
    exact ⟨he t (by simp), hr, hc, fun u hu => he u (by simp [hu])⟩
  · intro ⟨ht, hr, hc, he⟩
    refine ⟨⟨hr, hc⟩, ?_⟩
    intro u hu
    rcases List.mem_cons.mp hu with rfl | hu
    · exact ht
    · exact he u hu

end Token

namespace Kind

theorem nest_of_ne {k : Kind} (hl : k ≠ .lbrace) (hr : k ≠ .rbrace) (h : Nat) : k.nest h = h := by
  cases k <;> first | rfl | contradiction

/-- Where no brace is missing, depths inside a list are depths above its level. -/
theorem nest_add {k : Kind} {h : Nat} (hr : k = .rbrace → 0 < h) (level : Nat) :
    k.nest (level + h) = level + k.nest h := by
  cases k <;> simp only [nest, Nat.add_assoc]
  have := hr rfl
  omega

end Kind

namespace Token

/-- The first closing brace that no token before it has opened. -/
theorem Enclosed.split {g h : Nat} {s : List Token} (e : Enclosed (g + h + 1) s) :
    ∃ t rb u, s = t ++ rb :: u ∧ rb.kind = .rbrace ∧ Enclosed g t ∧ Enclosed h u := by
  induction s generalizing g with
  | nil => exact absurd (enclosed_nil.mp e) (by omega)
  | cons a s ih =>
      obtain ⟨ha, hr, e⟩ := enclosed_cons.mp e
      by_cases hrb : a.kind = .rbrace
      · rw [hrb] at e
        cases g with
        | zero => exact ⟨[], a, s, rfl, hrb, enclosed_nil.mpr rfl, by simpa [Kind.nest] using e⟩
        | succ g =>
            have e' : Enclosed (g + h + 1) s := by
              simpa only [Kind.nest, Nat.add_sub_cancel, Nat.add_right_comm] using e
            obtain ⟨t, rb, u, rfl, hu, et, eu⟩ := ih e'
            exact ⟨a :: t, rb, u, rfl, hu, enclosed_cons.mpr
              ⟨ha, fun _ => Nat.succ_pos g, by simpa [hrb, Kind.nest] using et⟩, eu⟩
      · have hn : a.kind.nest (g + h + 1) = a.kind.nest g + h + 1 := by
          by_cases hlb : a.kind = .lbrace
          · simp only [hlb, Kind.nest]; omega
          · simp only [Kind.nest_of_ne hlb hrb]
        obtain ⟨t, rb, u, rfl, hu, et, eu⟩ := ih (hn ▸ e)
        exact ⟨a :: t, rb, u, rfl, hu, enclosed_cons.mpr ⟨ha, fun h => absurd h hrb, et⟩, eu⟩

/-- What stands behind the first `;` that lies in no braces, with `h` of them open at the start. -/
def resume : Nat → List Token → Option (List Token)
  | _, [] => none
  | h, t :: ts => if t.kind = .semicolon ∧ h = 0 then some ts else resume (t.kind.nest h) ts

theorem Enclosed.resume {h : Nat} {s s' : List Token} (e : Enclosed h s)
    (hs : resume h s = some s') : Enclosed 0 s' ∧ s'.length < s.length := by
  induction s generalizing h with
  | nil => cases hs
  | cons a s ih =>
      obtain ⟨-, -, e⟩ := enclosed_cons.mp e
      rw [Token.resume] at hs
      split at hs
      · next hk =>
          cases hs
          rw [hk.1, hk.2] at e
          exact ⟨e, by simp⟩
      · obtain ⟨e', hl⟩ := ih e hs
        exact ⟨e', by simp only [List.length_cons]; omega⟩

end Token

namespace Cursor

open Token

/-- Inside a list recovery passes every token but a `;` of the list and the last one before the
closing brace. -/
theorem isBoundary_inside {level h : Nat} {t : Token} {ts : List Token}
    (ht : t.kind ≠ .eof) (hr : t.kind = .rbrace → 0 < h)
    (hs : ¬ (t.kind = .semicolon ∧ h = 0))
    (hb : kindOf ts = .rbrace → 0 < t.kind.nest h) :
    isBoundary level t ts (t.kind.nest (level + h)) = false := by
  have hs' : t.kind.nest h = 0 → t.kind ≠ .semicolon := by
    intro h0 hk
    rw [hk] at h0
    exact hs ⟨hk, h0⟩
  rw [Kind.nest_add hr]
  simp only [isBoundary, Bool.or_eq_false_iff, Bool.and_eq_false_iff, beq_eq_false_iff_ne,
    decide_eq_false_iff_not]
  refine ⟨⟨ht, by omega⟩, ?_⟩
  by_cases h0 : t.kind.nest h = 0
  · exact .inr ⟨hs' h0, fun hk => absurd (hb hk) (by omega)⟩
  · exact .inl (by omega)

/-- Started `h` braces inside a list, recovery stops on the `;` that `resume` finds. -/
theorem skipFrom_inside {level h : Nat} {s s' : List Token} (x : List Token) (e : Enclosed h s)
    (hs : resume h s = some s') :
    ∃ t, t.kind = .semicolon ∧
      skipFrom level (s ++ x) ((kindOf (s ++ x)).nest (level + h)) = (t :: (s' ++ x), level) := by
  induction s generalizing h with
  | nil => cases hs
  | cons a s ih =>
      obtain ⟨ha, hr, e⟩ := enclosed_cons.mp e
      rw [resume] at hs
      rw [List.cons_append, skipFrom, kindOf_cons]
      split at hs
      · next hk =>
          cases hs
          refine ⟨a, hk.1, ?_⟩
          rw [if_pos]
          · rw [hk.1, hk.2]; rfl
          · rw [hk.1, hk.2]; simp [isBoundary, hk.1, Kind.nest]
      · next hk =>
          obtain ⟨b, s, rfl⟩ : ∃ b r, s = b :: r := by
            cases s with
            | nil => cases hs
            | cons b r => exact ⟨b, r, rfl⟩
          have hb : kindOf (b :: s ++ x) = .rbrace → 0 < a.kind.nest h := (enclosed_cons.mp e).2.1
          rw [isBoundary_inside ha hr hk hb, if_neg Bool.false_ne_true, Kind.nest_add hr]
          exact ih e hs

/-- Without a `;` of the list in `s` recovery comes to what follows `s`, or stops before it if that
is the closing brace. -/
theorem skipFrom_through {level h : Nat} {s : List Token} (x : List Token) (e : Enclosed h s)
    (hs : resume h s = none) :
    skipFrom level (s ++ x) ((kindOf (s ++ x)).nest (level + h)) =
        skipFrom level x ((kindOf x).nest level) ∨
      kindOf x = .rbrace ∧ ∃ t, skipFrom level (s ++ x) ((kindOf (s ++ x)).nest (level + h)) =
        (t :: x, level) := by
  induction s generalizing h with
  | nil =>
      rw [enclosed_nil.mp e]
      exact .inl rfl
  | cons a s ih =>
      obtain ⟨ha, hr, e⟩ := enclosed_cons.mp e
      rw [resume] at hs
      split at hs
      · cases hs
      · next hk =>
          rw [List.cons_append, skipFrom, kindOf_cons]
          by_cases hlast : s = [] ∧ kindOf x = .rbrace
          · obtain ⟨rfl, hx⟩ := hlast
            have h0 := enclosed_nil.mp e
            rw [Kind.nest_add hr, h0, if_pos (by simp [isBoundary, hx])]
            exact .inr ⟨hx, a, rfl⟩
          · have hb : kindOf (s ++ x) = .rbrace → 0 < a.kind.nest h := by
              cases s with
              | nil => exact fun hx => absurd ⟨rfl, hx⟩ hlast
              | cons b s => exact (enclosed_cons.mp e).2.1
            rw [isBoundary_inside ha hr hk hb, if_neg Bool.false_ne_true, Kind.nest_add hr]
            exact ih e hs

/-- Where the list goes on after a statement that was given up. -/
def resumed (c : Cursor) (level : Nat) : Cursor :=
  if (c.recover level).depth < level then c.recover level else (c.recover level).advance

/-- What is left to read of `x` when a list that `x` follows has been left. -/
def leave (x : List Token) : List Token :=
  if kindOf x = .semicolon then x.tail else x

@[simp]
theorem resumed_diagnostics (c : Cursor) (level : Nat) :
    (c.resumed level).diagnostics = c.diagnostics := by
  unfold resumed
  split <;> simp

theorem resumed_of_skipFrom {c : Cursor} {level : Nat} {t : Token} {r : List Token}
    (h : skipFrom level c.rest c.depth = (t :: r, level)) :
    (c.resumed level).rest = r ∧ (c.resumed level).depth = (c.resumed level).kind.nest level ∧
      (c.recover level).depth = level := by
  have hrest : (c.recover level).rest = t :: r := congrArg Prod.fst h
  have hdepth : (c.recover level).depth = level := congrArg Prod.snd h
  have hres : c.resumed level = (c.recover level).advance := by
    rw [resumed, if_neg (by omega)]
  refine ⟨by rw [hres, advance_rest, hrest, List.tail_cons], ?_, hdepth⟩
  rw [hres, advance_depth, advance_kind, hdepth]

/-- The tokens behind a statement list: the closing brace of a block, the end of the input, or a
`;` with which the list might go on. -/
def EndsList (level : Nat) (x : List Token) : Prop :=
  kindOf x = .rbrace ∧ 0 < level ∨ x = [] ∨ kindOf x = .semicolon

theorem resumed_of_endsList {c : Cursor} {level : Nat} {x : List Token} (hx : EndsList level x)
    (h : skipFrom level c.rest c.depth = skipFrom level x ((kindOf x).nest level)) :
    (c.resumed level).rest = leave x ∧
      (c.resumed level).depth = (c.resumed level).kind.nest level ∧
      ((c.recover level).depth < level → kindOf x = .rbrace ∧ (c.recover level).rest = x) := by
  cases x with
  | nil =>
      have hrest : (c.recover level).rest = [] := congrArg Prod.fst h
      have hdepth : (c.recover level).depth = level := congrArg Prod.snd h
      have hres : c.resumed level = (c.recover level).advance := by
        rw [resumed, if_neg (by omega)]
      refine ⟨by rw [hres, advance_rest, hrest]; rfl, ?_, by omega⟩
      rw [hres, advance_depth, advance_kind, hdepth]
  | cons t r =>
      rw [EndsList, kindOf_cons] at hx
      rcases hx with ⟨hk, hl⟩ | hn | hk
      · rw [kindOf_cons, skipFrom, hk, Kind.nest, if_pos (by simp [isBoundary]; omega)] at h
        have hrest : (c.recover level).rest = t :: r := congrArg Prod.fst h
        have hdepth : (c.recover level).depth = level - 1 := congrArg Prod.snd h
        have hres : c.resumed level = c.recover level := by
          rw [resumed, if_pos (by omega)]
        refine ⟨by rw [hres, hrest, leave, kindOf_cons, hk, if_neg (by decide)], ?_,
          fun _ => ⟨hk, hrest⟩⟩
        rw [hres, hdepth, Cursor.kind, hrest, kindOf_cons, hk, Kind.nest]
      · cases hn
      · rw [kindOf_cons, hk, Kind.nest_of_ne (by decide) (by decide), skipFrom,
          if_pos (by simp [isBoundary, hk])] at h
        obtain ⟨hrest, hdepth, hl⟩ := resumed_of_skipFrom h
        exact ⟨by rw [hrest, leave, kindOf_cons, if_pos hk, List.tail_cons], hdepth, by omega⟩

/-- Given up inside a list with `x` behind it, a statement is left at the `;` that ends it, and
otherwise together with the list. -/
theorem resumed_of_enclosed {c : Cursor} {level h : Nat} {s x : List Token}
    (hrest : c.rest = s ++ x) (hdepth : c.depth = c.kind.nest (level + h)) (e : Enclosed h s)
    (hx : EndsList level x) :
    (c.resumed level).rest = (match resume h s with | some s' => s' ++ x | none => leave x) ∧
      (c.resumed level).depth = (c.resumed level).kind.nest level ∧
      ((c.recover level).depth < level → kindOf x = .rbrace ∧ (c.recover level).rest = x) := by
  rw [Cursor.kind, hrest] at hdepth
  cases hs : resume h s with
  | some s' =>
      obtain ⟨t, -, ht⟩ := skipFrom_inside x e hs
      rw [← hdepth, ← hrest] at ht
      obtain ⟨hr, hd, hl⟩ := resumed_of_skipFrom ht
      exact ⟨hr, hd, by omega⟩
  | none =>
      rcases skipFrom_through x e hs with ht | ⟨hk, t, ht⟩
      · rw [← hdepth, ← hrest] at ht
        exact resumed_of_endsList hx ht
      · rw [← hdepth, ← hrest] at ht
        obtain ⟨hr, hd, hl⟩ := resumed_of_skipFrom ht
        exact ⟨by rw [hr, leave, hk, if_neg (by decide)], hd, by omega⟩

end Cursor

end Sprig
