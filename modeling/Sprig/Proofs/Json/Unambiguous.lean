import Sprig.Json.Tree
import Sprig.Proofs.Token.Spelling

/-!
A tree can be told from its JSON text.

Nothing separates the parts of a compact document but its own delimiters, so each part has to show
where it ends. Strings, lists and records close themselves, and a numeral goes on as far as there
are digits. `Json.Tells` says that a text has one reading, whatever follows it that is no digit. It
holds of every document by induction, and trees have different documents because every node carries
the name of its kind.
-/

namespace Sprig

namespace Json

/-- A numeral in front of this text ends there. -/
def EndsNumeral (r : List Char) : Prop := ∀ c ∈ r.head?, c.isDigit = false

theorem endsNumeral_cons {c : Char} (h : c.isDigit = false) (r : List Char) :
    EndsNumeral (c :: r) := by
  simpa [EndsNumeral] using h

section

variable {α : Type} (write : α → List Char)

/-- What is written for `a` is not written for anything else, also in front of other text. -/
def Tells (a : α) : Prop :=
  ∀ (b : α) (r s : List Char), EndsNumeral r → EndsNumeral s →
    write a ++ r = write b ++ s → a = b ∧ r = s

/-- Further items, each behind a comma. -/
def further : List α → List Char
  | [] => []
  | a :: as => ',' :: (write a ++ further as)

variable {write}

theorem endsNumeral_further {close : Char} (hclose : close.isDigit = false) (as : List α)
    (r : List Char) : EndsNumeral (further write as ++ close :: r) := by
  cases as with
  | nil => exact endsNumeral_cons hclose r
  | cons a as => exact endsNumeral_cons rfl _

theorem further_inj {close : Char} (hcomma : close ≠ ',') (hclose : close.isDigit = false)
    {as : List α} (hwrite : ∀ a ∈ as, Tells write a) {bs : List α} {r s : List Char}
    (h : further write as ++ close :: r = further write bs ++ close :: s) : as = bs ∧ r = s := by
  induction as generalizing bs with
  | nil =>
      cases bs with
      | nil => simpa [further] using h
      | cons b bs => simp [further, hcomma] at h
  | cons a as ih =>
      cases bs with
      | nil => simp [further, hcomma.symm] at h
      | cons b bs =>
          simp only [further, List.cons_append, List.append_assoc, List.cons.injEq, true_and] at h
          obtain ⟨hhead, htail⟩ := List.forall_mem_cons.mp hwrite
          obtain ⟨rfl, hrest⟩ := hhead b _ _ (endsNumeral_further hclose as r)
            (endsNumeral_further hclose bs s) h
          obtain ⟨rfl, hr⟩ := ih htail hrest
          exact ⟨rfl, hr⟩

/-- Items as they stand between the delimiters of a list or of a record. -/
def separated (write : α → List Char) : List α → List Char
  | [] => []
  | a :: as => write a ++ further write as

theorem separated_inj {close : Char} (hcomma : close ≠ ',') (hclose : close.isDigit = false)
    (hhead : ∀ a, ∃ c cs, write a = c :: cs ∧ c ≠ close) {as : List α}
    (hwrite : ∀ a ∈ as, Tells write a) {bs : List α} {r s : List Char}
    (h : separated write as ++ close :: r = separated write bs ++ close :: s) :
    as = bs ∧ r = s := by
  cases as with
  | nil =>
      cases bs with
      | nil => simpa [separated] using h
      | cons b bs =>
          obtain ⟨c, cs, hb, hc⟩ := hhead b
          simp [separated, hb, hc.symm] at h
  | cons a as =>
      obtain ⟨c, cs, ha, hc⟩ := hhead a
      cases bs with
      | nil => simp [separated, ha, hc] at h
      | cons b bs =>
          -- behind a comma in front of each, the items would stand as further ones do
          refine further_inj hcomma hclose hwrite ?_
          simpa [separated, further] using h

theorem intercalate_map (as : List α) : [','].intercalate (as.map write) = separated write as := by
  cases as with
  | nil => rfl
  | cons a as =>
      induction as generalizing a with
      | nil => simp [separated, further]
      | cons b bs ih => simpa [separated, further, List.intercalate_cons_cons] using ih b

end

section Strings

/-- The control characters that are written with a letter, and the two characters that are written
with themselves. -/
def letters : List (Char × Char) :=
  [('"', '"'), ('\\', '\\'), ('\x08', 'b'), ('\x0c', 'f'), ('\n', 'n'), ('\r', 'r'), ('\t', 't')]

theorem letters_inj : ∀ p ∈ letters, p.2 ≠ 'u' ∧ ∀ q ∈ letters, p.2 = q.2 → p.1 = q.1 := by
  decide

theorem digitChar_inj : ∀ a < 16, ∀ b < 16, Nat.digitChar a = Nat.digitChar b → a = b := by
  decide

theorem escapeChar_cases (c : Char) :
    (∃ e, (c, e) ∈ letters ∧ escapeChar c = ['\\', e]) ∨
      (c.toNat < 0x20 ∧ escapeChar c =
        ['\\', 'u', '0', '0', Nat.digitChar (c.toNat / 16), Nat.digitChar (c.toNat % 16)]) ∨
      (c ≠ '"' ∧ c ≠ '\\' ∧ escapeChar c = [c]) := by
  fun_cases escapeChar c <;> simp_all [letters]

theorem escapeChar_append_inj {c d : Char} {r s : List Char}
    (h : escapeChar c ++ r = escapeChar d ++ s) : c = d ∧ r = s := by
  rcases escapeChar_cases c with ⟨e, he, hc⟩ | ⟨hlt, hc⟩ | ⟨-, hslash, hc⟩ <;>
    rcases escapeChar_cases d with ⟨e', he', hd⟩ | ⟨hlt', hd⟩ | ⟨-, hslash', hd⟩ <;>
    simp only [hc, hd, List.cons_append, List.nil_append, List.cons.injEq, true_and] at h
  · exact ⟨(letters_inj _ he).2 _ he' h.1, h.2⟩
  · exact absurd h.1 (letters_inj _ he).1
  · exact absurd h.1.symm hslash'
  · exact absurd h.1.symm (letters_inj _ he').1
  · obtain ⟨hhigh, hlow, hr⟩ := h
    have hdiv := digitChar_inj _ (by omega) _ (by omega) hhigh
    have hmod := digitChar_inj _ (by omega) _ (by omega) hlow
    exact ⟨Char.toNat_inj.mp (by omega), hr⟩
  · exact absurd h.1.symm hslash'
  · exact absurd h.1 hslash
  · exact absurd h.1 hslash
  · exact h

/-- No character of a string is written with a quote in front. -/
theorem escapeChar_head (c : Char) : ∃ a as, escapeChar c = a :: as ∧ a ≠ '"' := by
  rcases escapeChar_cases c with ⟨e, -, hc⟩ | ⟨-, hc⟩ | ⟨hquote, -, hc⟩
  · exact ⟨_, _, hc, by decide⟩
  · exact ⟨_, _, hc, by decide⟩
  · exact ⟨_, _, hc, hquote⟩

theorem flatMap_escapeChar_inj {cs ds r s : List Char}
    (h : cs.flatMap escapeChar ++ '"' :: r = ds.flatMap escapeChar ++ '"' :: s) :
    cs = ds ∧ r = s := by
  induction cs generalizing ds with
  | nil =>
      cases ds with
      | nil => simpa using h
      | cons d ds =>
          obtain ⟨a, as, ha, hne⟩ := escapeChar_head d
          simp [ha, hne.symm] at h
  | cons c cs ih =>
      cases ds with
      | nil =>
          obtain ⟨a, as, ha, hne⟩ := escapeChar_head c
          simp [ha, hne] at h
      | cons d ds =>
          simp only [List.flatMap_cons, List.append_assoc] at h
          obtain ⟨rfl, hrest⟩ := escapeChar_append_inj h
          obtain ⟨rfl, hr⟩ := ih hrest
          exact ⟨rfl, hr⟩

theorem toList_escaped (s : String) :
    (escaped s).toList = '"' :: (s.toList.flatMap escapeChar ++ ['"']) := by
  simp [escaped]

theorem escaped_append_inj {s t : String} {r r' : List Char}
    (h : (escaped s).toList ++ r = (escaped t).toList ++ r') : s = t ∧ r = r' := by
  simp only [toList_escaped, List.cons_append, List.append_assoc, List.nil_append,
    List.cons.injEq, true_and] at h
  obtain ⟨hst, hr⟩ := flatMap_escapeChar_inj h
  exact ⟨String.toList_inj.mp hst, hr⟩

end Strings

section Numerals

theorem natural_tells (n : Nat) : Tells (fun n : Nat => n.repr.toList) n := by
  intro m r s hr hs h
  have hdigits (k : Nat) : ∀ c ∈ k.repr.toList, c.isDigit := by
    intro c hc
    rw [Nat.toList_repr] at hc
    exact Nat.isDigit_of_mem_toDigits (by decide) (by decide) hc
  obtain ⟨htake, hdrop⟩ := Text.takeWhile_append_of_stop (hdigits n) hr
  obtain ⟨htake', hdrop'⟩ := Text.takeWhile_append_of_stop (hdigits m) hs
  rw [h] at htake hdrop
  have hnumeral : n.repr.toList = m.repr.toList := htake.symm.trans htake'
  refine ⟨?_, hdrop.symm.trans hdrop'⟩
  simpa [Nat.toList_repr, Nat.ofDigitChars_toDigits] using
    congrArg (Nat.ofDigitChars 10 · 0) hnumeral

/-- A natural number starts with a digit, so it cannot be taken for a negative one. -/
theorem natural_head (n : Nat) : ∃ c cs, n.repr.toList = c :: cs ∧ c.isDigit := by
  obtain ⟨c, cs, hcs⟩ := List.exists_cons_of_ne_nil (Nat.toDigits_ne_nil : Nat.toDigits 10 n ≠ [])
  refine ⟨c, cs, Nat.toList_repr.trans hcs, ?_⟩
  exact Nat.isDigit_of_mem_toDigits (by decide) (by decide) (hcs ▸ List.mem_cons_self)

theorem toList_repr_negSucc (n : Nat) :
    (Int.negSucc n).repr.toList = '-' :: (n + 1).repr.toList := by
  simp [Int.repr]

theorem natural_ne_negative {n m : Nat} {r s : List Char} :
    n.repr.toList ++ r ≠ (Int.negSucc m).repr.toList ++ s := by
  obtain ⟨c, cs, hn, hc⟩ := natural_head n
  rw [hn, toList_repr_negSucc]
  intro h
  rw [(List.cons.inj h).1] at hc
  cases hc

theorem integer_tells (n : Int) : Tells (fun n : Int => n.repr.toList) n := by
  intro m r s hr hs h
  cases n with
  | ofNat n =>
      cases m with
      | ofNat m =>
          obtain ⟨rfl, hrs⟩ := natural_tells n m r s hr hs h
          exact ⟨rfl, hrs⟩
      | negSucc m => exact absurd h natural_ne_negative
  | negSucc n =>
      cases m with
      | ofNat m => exact absurd h.symm natural_ne_negative
      | negSucc m =>
          simp only [toList_repr_negSucc, List.cons_append, List.cons.injEq, true_and] at h
          obtain ⟨hnm, hrs⟩ := natural_tells (n + 1) (m + 1) r s hr hs h
          exact ⟨by rw [Nat.succ.inj hnm], hrs⟩

end Numerals

section Documents

/-- The characters of a compact document. -/
def chars (j : Json) : List Char := j.compact.toList

def fieldChars (f : String × Json) : List Char := (compactField f).toList

theorem compactItems_eq (js : List Json) : compactItems js = js.map compact := by
  induction js with
  | nil => rfl
  | cons j js ih => simp [compactItems, ih]

theorem compactFields_eq (fs : List (String × Json)) : compactFields fs = fs.map compactField := by
  induction fs with
  | nil => rfl
  | cons f fs ih => simp [compactFields, ih]

theorem chars_list (js : List Json) : chars (list js) = '[' :: (separated chars js ++ [']']) := by
  simp [chars, compact, compactItems_eq, intercalate_map]
  rfl

theorem chars_record (fs : List (String × Json)) :
    chars (record fs) = '\x7b' :: (separated fieldChars fs ++ ['\x7d']) := by
  simp [chars, compact, compactFields_eq, intercalate_map]
  rfl

theorem fieldChars_mk (key : String) (j : Json) :
    fieldChars (key, j) = (escaped key).toList ++ ':' :: chars j := by
  simp [fieldChars, compactField, chars]

/-- The kinds of documents. -/
inductive Shape
  | null | bool | int | str | list | record
  deriving DecidableEq

def shape : Json → Shape
  | null => .null
  | bool _ => .bool
  | int _ => .int
  | str _ => .str
  | list _ => .list
  | record _ => .record

/-- What the first character of a document says about its kind. -/
def Shape.ofLead (c : Char) : Shape :=
  if c = 'n' then .null
  else if c = 't' ∨ c = 'f' then .bool
  else if c = '"' then .str
  else if c = '[' then .list
  else if c = '\x7b' then .record
  else .int

theorem Shape.ofLead_of_isDigit {c : Char} (h : c.isDigit) : ofLead c = .int ∧ c ≠ ']' := by
  have hne (a : Char) (ha : a.isDigit = false) : c ≠ a := by
    rintro rfl
    rw [ha] at h
    cases h
  simp [ofLead, hne 'n' rfl, hne 't' rfl, hne 'f' rfl, hne '"' rfl, hne '[' rfl, hne '\x7b' rfl,
    hne ']' rfl]

theorem chars_head (j : Json) :
    ∃ c cs, chars j = c :: cs ∧ Shape.ofLead c = j.shape ∧ c ≠ ']' := by
  cases j with
  | null => exact ⟨'n', _, rfl, rfl, by decide⟩
  | bool b => cases b <;> exact ⟨_, _, rfl, rfl, by decide⟩
  | int n =>
      cases n with
      | ofNat n =>
          obtain ⟨c, cs, hn, hc⟩ := natural_head n
          exact ⟨c, cs, hn, Shape.ofLead_of_isDigit hc⟩
      | negSucc n => exact ⟨'-', _, toList_repr_negSucc n, rfl, by decide⟩
  | str s => exact ⟨'"', _, toList_escaped s, rfl, by decide⟩
  | list js => exact ⟨'[', _, chars_list js, rfl, by decide⟩
  | record fs => exact ⟨'\x7b', _, chars_record fs, rfl, by decide⟩

theorem shape_eq {j k : Json} {r s : List Char} (h : chars j ++ r = chars k ++ s) :
    j.shape = k.shape := by
  obtain ⟨c, cs, hj, hc, -⟩ := chars_head j
  obtain ⟨d, ds, hk, hd, -⟩ := chars_head k
  rw [hj, hk] at h
  rw [← hc, ← hd, (List.cons.inj h).1]

theorem fieldChars_head (f : String × Json) : ∃ c cs, fieldChars f = c :: cs ∧ c ≠ '\x7d' :=
  ⟨'"', _, by rw [fieldChars_mk, toList_escaped, List.cons_append], by decide⟩

mutual

/-- Only the same document has the same text. -/
theorem tells : ∀ j : Json, Tells chars j
  | null => by
      intro k r s _ _ h
      cases k with
      | null => simpa [chars, compact] using h
      | _ => cases shape_eq h
  | bool b => by
      intro k r s _ _ h
      cases k with
      | bool b' => cases b <;> cases b' <;> simp_all [chars, compact]
      | _ => cases shape_eq h
  | int n => by
      intro k r s hr hs h
      cases k with
      | int m =>
          obtain ⟨rfl, hrs⟩ := integer_tells n m r s hr hs h
          exact ⟨rfl, hrs⟩
      | _ => cases shape_eq h
  | str t => by
      intro k r s _ _ h
      cases k with
      | str t' =>
          obtain ⟨rfl, hrs⟩ := escaped_append_inj h
          exact ⟨rfl, hrs⟩
      | _ => cases shape_eq h
  | list js => by
      intro k r s _ _ h
      cases k with
      | list ks =>
          simp only [chars_list, List.cons_append, List.append_assoc, List.nil_append,
            List.cons.injEq, true_and] at h
          have hhead (j : Json) : ∃ c cs, chars j = c :: cs ∧ c ≠ ']' := by
            obtain ⟨c, cs, hj, -, hc⟩ := chars_head j
            exact ⟨c, cs, hj, hc⟩
          obtain ⟨rfl, hrs⟩ := separated_inj (by decide) rfl hhead (tellsAll js) h
          exact ⟨rfl, hrs⟩
      | _ => cases shape_eq h
  | record fs => by
      intro k r s _ _ h
      cases k with
      | record gs =>
          simp only [chars_record, List.cons_append, List.append_assoc, List.nil_append,
            List.cons.injEq, true_and] at h
          obtain ⟨rfl, hrs⟩ := separated_inj (by decide) rfl fieldChars_head (tellsFields fs) h
          exact ⟨rfl, hrs⟩
      | _ => cases shape_eq h
termination_by structural j => j

theorem tellsAll : ∀ (js : List Json), ∀ j ∈ js, Tells chars j
  | [] => by simp
  | j :: js => List.forall_mem_cons.mpr ⟨tells j, tellsAll js⟩
termination_by structural js => js

theorem tellsField : ∀ f : String × Json, Tells fieldChars f
  | (key, j) => by
      rintro ⟨key', k⟩ r s hr hs h
      simp only [fieldChars_mk, List.append_assoc, List.cons_append] at h
      obtain ⟨rfl, hvalue⟩ := escaped_append_inj h
      obtain ⟨rfl, hrs⟩ := tells j k r s hr hs (List.cons.inj hvalue).2
      exact ⟨rfl, hrs⟩
termination_by structural f => f

theorem tellsFields : ∀ (fs : List (String × Json)), ∀ f ∈ fs, Tells fieldChars f
  | [] => by simp
  | f :: fs => List.forall_mem_cons.mpr ⟨tellsField f, tellsFields fs⟩
termination_by structural fs => fs

end

theorem compact_inj {j k : Json} (h : j.compact = k.compact) : j = k := by
  have hend : EndsNumeral [] := by simp [EndsNumeral]
  exact (tells j k [] [] hend hend (by simp [chars, h])).1

end Documents

@[simp]
theorem node_inj {key key' : String} {j k : Json} :
    node key j = node key' k ↔ key = key' ∧ j = k := by
  simp [node]

@[simp]
theorem block_inj {js ks : List Json} : block js = block ks ↔ js = ks := by
  simp [block]

@[simp]
theorem null_ne_block (js : List Json) : null ≠ block js := by
  simp [block]

@[simp]
theorem map_str_inj {as bs : List String} : as.map str = bs.map str ↔ as = bs :=
  List.map_inj_right fun _ _ => str.inj

end Json

@[simp]
theorem UnaryOp.label_inj {o p : UnaryOp} : o.label = p.label ↔ o = p := by
  cases o <;> cases p <;> simp [label]

@[simp]
theorem BinaryOp.label_inj {o p : BinaryOp} : o.label = p.label ↔ o = p := by
  cases o <;> cases p <;> simp [label]

/-- A conditional with or without an alternative is the same kind of node. -/
@[simp]
theorem Expr.toJson_cond (test : Expr) (yes : Block) (no : Option Block) :
    (Expr.cond test yes no).toJson = .node "If" (.record
      [("condition", test.toJson), ("consequence", .block (Stmt.toJsonAll yes)),
       ("alternative", no.elim .null fun block => .block (Stmt.toJsonAll block))]) := by
  cases no <;> rfl

mutual

/-- The name of its kind tells each node from all others, and the parts follow by induction. -/
theorem Expr.toJson_inj : ∀ {a b : Expr}, a.toJson = b.toJson → a = b
  | .ident x, b, h => by
      cases b with
      | ident y => simpa [Expr.toJson] using h
      | _ => simp [Expr.toJson] at h
  | .int m, b, h => by
      cases b with
      | int n => simpa [Expr.toJson, Int64.toInt_inj] using h
      | _ => simp [Expr.toJson] at h
  | .str s, b, h => by
      cases b with
      | str t => simpa [Expr.toJson] using h
      | _ => simp [Expr.toJson] at h
  | .bool x, b, h => by
      cases b with
      | bool y => simpa [Expr.toJson] using h
      | _ => simp [Expr.toJson] at h
  | .array as, b, h => by
      cases b with
      | array bs =>
          have hitems : Expr.toJsonAll as = Expr.toJsonAll bs := by simpa [Expr.toJson] using h
          rw [Expr.toJsonAll_inj hitems]
      | _ => simp [Expr.toJson] at h
  | .unary o a, b, h => by
      cases b with
      | unary p b =>
          have ⟨ho, ha⟩ : o = p ∧ a.toJson = b.toJson := by simpa [Expr.toJson] using h
          rw [ho, Expr.toJson_inj ha]
      | _ => simp [Expr.toJson] at h
  | .binary o l r, b, h => by
      cases b with
      | binary p l' r' =>
          have ⟨ho, hl, hr⟩ : o = p ∧ l.toJson = l'.toJson ∧ r.toJson = r'.toJson := by
            simpa [Expr.toJson] using h
          rw [ho, Expr.toJson_inj hl, Expr.toJson_inj hr]
      | _ => simp [Expr.toJson] at h
  | .cond a y none, b, h => by
      cases b with
      | cond b z m =>
          cases m with
          | none =>
              have ⟨ha, hy⟩ : a.toJson = b.toJson ∧ Stmt.toJsonAll y = Stmt.toJsonAll z := by
                simpa [Expr.toJson] using h
              rw [Expr.toJson_inj ha, Stmt.toJsonAll_inj hy]
          | some m => simp [Expr.toJson] at h
      | _ => simp [Expr.toJson] at h
  | .cond a y (some n), b, h => by
      cases b with
      | cond b z m =>
          cases m with
          | none => simp [Expr.toJson, (Json.null_ne_block _).symm] at h
          | some m =>
              have ⟨ha, hy, hn⟩ : a.toJson = b.toJson ∧ Stmt.toJsonAll y = Stmt.toJsonAll z ∧
                  Stmt.toJsonAll n = Stmt.toJsonAll m := by
                simpa [Expr.toJson] using h
              rw [Expr.toJson_inj ha, Stmt.toJsonAll_inj hy, Stmt.toJsonAll_inj hn]
      | _ => simp [Expr.toJson] at h
  | .function ps y, b, h => by
      cases b with
      | function qs z =>
          have ⟨hps, hy⟩ : ps = qs ∧ Stmt.toJsonAll y = Stmt.toJsonAll z := by
            simpa [Expr.toJson] using h
          rw [hps, Stmt.toJsonAll_inj hy]
      | _ => simp [Expr.toJson] at h
  | .call a as, b, h => by
      cases b with
      | call b bs =>
          have ⟨ha, has⟩ : a.toJson = b.toJson ∧ Expr.toJsonAll as = Expr.toJsonAll bs := by
            simpa [Expr.toJson] using h
          rw [Expr.toJson_inj ha, Expr.toJsonAll_inj has]
      | _ => simp [Expr.toJson] at h
  | .index a i, b, h => by
      cases b with
      | index b j =>
          have ⟨ha, hi⟩ : a.toJson = b.toJson ∧ i.toJson = j.toJson := by
            simpa [Expr.toJson] using h
          rw [Expr.toJson_inj ha, Expr.toJson_inj hi]
      | _ => simp [Expr.toJson] at h

theorem Expr.toJsonAll_inj : ∀ {as bs : List Expr}, Expr.toJsonAll as = Expr.toJsonAll bs → as = bs
  | [], bs, h => by cases bs <;> simp_all [Expr.toJsonAll]
  | a :: as, bs, h => by
      cases bs with
      | nil => simp [Expr.toJsonAll] at h
      | cons b bs =>
          have ⟨ha, has⟩ : a.toJson = b.toJson ∧ Expr.toJsonAll as = Expr.toJsonAll bs := by
            simpa [Expr.toJsonAll] using h
          rw [Expr.toJson_inj ha, Expr.toJsonAll_inj has]

theorem Stmt.toJson_inj : ∀ {a b : Stmt}, a.toJson = b.toJson → a = b
  | .bind x a, b, h => by
      cases b with
      | bind y b =>
          have ⟨hx, ha⟩ : x = y ∧ a.toJson = b.toJson := by simpa [Stmt.toJson] using h
          rw [hx, Expr.toJson_inj ha]
      | _ => simp [Stmt.toJson] at h
  | .ret a, b, h => by
      cases b with
      | ret b =>
          have ha : a.toJson = b.toJson := by simpa [Stmt.toJson] using h
          rw [Expr.toJson_inj ha]
      | _ => simp [Stmt.toJson] at h
  | .expr a, b, h => by
      cases b with
      | expr b =>
          have ha : a.toJson = b.toJson := by simpa [Stmt.toJson] using h
          rw [Expr.toJson_inj ha]
      | _ => simp [Stmt.toJson] at h
  | .block y, b, h => by
      cases b with
      | block z =>
          have hy : Stmt.toJsonAll y = Stmt.toJsonAll z := by simpa [Stmt.toJson] using h
          rw [Stmt.toJsonAll_inj hy]
      | _ => simp [Stmt.toJson] at h

theorem Stmt.toJsonAll_inj : ∀ {as bs : List Stmt}, Stmt.toJsonAll as = Stmt.toJsonAll bs → as = bs
  | [], bs, h => by cases bs <;> simp_all [Stmt.toJsonAll]
  | a :: as, bs, h => by
      cases bs with
      | nil => simp [Stmt.toJsonAll] at h
      | cons b bs =>
          have ⟨ha, has⟩ : a.toJson = b.toJson ∧ Stmt.toJsonAll as = Stmt.toJsonAll bs := by
            simpa [Stmt.toJsonAll] using h
          rw [Stmt.toJson_inj ha, Stmt.toJsonAll_inj has]

end

theorem Program.toJson_inj {p q : Program} (h : p.toJson = q.toJson) : p = q := by
  obtain ⟨ss⟩ := p
  obtain ⟨ts⟩ := q
  have hstatements : Stmt.toJsonAll ss = Stmt.toJsonAll ts := by simpa [Program.toJson] using h
  rw [Stmt.toJsonAll_inj hstatements]

/-- The compact JSON text of a program determines the program. -/
theorem compact_toJson_inj (p q : Program) : p.toJson.compact = q.toJson.compact ↔ p = q :=
  ⟨fun h => Program.toJson_inj (Json.compact_inj h), fun h => by rw [h]⟩

end Sprig
