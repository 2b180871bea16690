import Mathlib.Tactic.Common
import Cartridge.Proofs.Expr.Reading

/-!
Where printing and reading undo each other. A text is read back as the expression it was printed from
unless a right operand has lost its parentheses to an operator that it may be regrouped with; then what
stands right of the last operator is only a part of that operand.
-/
namespace Cartridge

namespace Term

mutual

def size : Term → Nat
  | .number _ | .text _ | .name _ => 1
  | .binary _ l r => l.size + r.size + 1
  | .unary _ t | .index _ t => t.size + 1
  | .call _ args => sizeAll args + 1
  | .ternary c y n => c.size + y.size + n.size + 1

def sizeAll : List Term → Nat
  | [] => 0
  | t :: ts => t.size + sizeAll ts

end

end Term

namespace Expr

mutual

/-- An expression as it stands. A negative literal is written as the negation of its absolute value,
and a string literal stands for itself. -/
def term : Expr → Term
  | .int v => if v < 0 then .unary .neg (.number v.toInt.natAbs) else .number v.toInt.natAbs
  | .str s => .text (CString.escape s)
  | .var name => .name name
  | .binary op l r => .binary op l.term r.term
  | .unary op e => .unary op e.term
  | .index array e => .index array e.term
  | .call name args => .call name (terms args)
  | .ternary c y n => .ternary c.term y.term n.term

def terms : List Expr → List Term
  | [] => []
  | e :: es => e.term :: terms es

end

/-- No operator lets the root of its right operand join it. -/
def KeepsRight : Expr → Prop
  | .binary op _ (.binary child _ _) => op.regroups child = false
  | _ => True

instance : DecidablePred KeepsRight := fun e => by
  unfold KeepsRight
  split <;> infer_instance

theorem terms_eq_map (args : List Expr) : terms args = args.map term := by
  induction args with
  | nil => rfl
  | cons e args ih => rw [terms, List.map_cons, ih]

theorem keepsRight_binary {op : BinOp} {l r : Expr} :
    (Expr.binary op l r).KeepsRight ↔ r.joins op = false := by
  cases r <;> simp [KeepsRight, joins]

/-- At the left end of a text nothing comes before the left operand. -/
theorem leftReading_id (op : BinOp) (l : Expr) : l.leftReading op id = l.reading := by
  rw [leftReading]
  split <;> rfl

theorem reading_binary {op : BinOp} {l r : Expr} (h : r.joins op = false) :
    (Expr.binary op l r).reading = .binary op l.reading r.reading := by
  rw [reading, readingAfter_binary, if_neg (by simp [h]), leftReading_id]

/-- An expression without operands that join is read as it stands. -/
theorem reading_eq_term {e : Expr} (h : e.Every KeepsRight) : e.reading = e.term := by
  induction e with
  | int v | str s | var name => rfl
  | binary op l r ihl ihr =>
    obtain ⟨hroot,hl,hr⟩ := h
    rw [reading_binary (keepsRight_binary.mp hroot), ihl hl, ihr hr, term]
  | unary op e ih => exact congrArg (Term.unary op) (ih h.2)
  | index array e ih => exact congrArg (Term.index array) (ih h.2)
  | call name args ih =>
    have hargs := (everyOf_iff args).mp h.2
    rw [reading_call, term, terms_eq_map, List.map_congr_left fun a ha => ih a ha (hargs a ha)]
  | ternary c y n ihc ihy ihn =>
    obtain ⟨-,hc,hy,hn⟩ := h
    rw [term, ← ihc hc, ← ihy hy, ← ihn hn]
    rfl

def KeepsSize (e : Expr) : Prop :=
  ∀ k m, (∀ t, (k t).size = t.size + m) → (e.readingAfter k).size = e.term.size + m

theorem KeepsSize.reading {e : Expr} (h : e.KeepsSize) : e.reading.size = e.term.size :=
  h id 0 fun _ => rfl

theorem KeepsSize.binary {op : BinOp} {l r : Expr} (hl : l.KeepsSize) (hr : r.KeepsSize) :
    (Expr.binary op l r).KeepsSize := by
  intro k m hk
  have hleft : (l.leftReading op k).size = l.term.size + m := by
    rw [leftReading]
    split
    · exact hl k m hk
    · rw [hk, hl.reading]
  rw [readingAfter_binary, term, Term.size]
  split
  · rw [hr _ (l.term.size + m + 1) fun t => by rw [Term.size, hleft]; omega]
    omega
  · rw [Term.size, hleft, hr.reading]
    omega

private theorem sizeAll_congr {args : List Expr} (h : ∀ a ∈ args, a.KeepsSize) :
    Term.sizeAll (args.map reading) = Term.sizeAll (args.map term) := by
  induction args with
  | nil => rfl
  | cons a args ih =>
    obtain ⟨ha,hargs⟩ := List.forall_mem_cons.mp h
    rw [List.map_cons, List.map_cons, Term.sizeAll, Term.sizeAll, ha.reading, ih hargs]

/-- Reading loses and adds nothing. -/
theorem keepsSize (e : Expr) : e.KeepsSize := by
  induction e with
  | int v | str s | var name => exact fun k m hk => hk _
  | binary op l r hl hr => exact hl.binary hr
  | unary op e h | index array e h =>
    intro k m hk
    have he := h.reading
    rw [reading] at he
    rw [readingAfter, hk, term, Term.size, Term.size, he]
  | call name args h =>
    intro k m hk
    rw [readingAfter, hk, term, Term.size, Term.size, readings_eq_map, terms_eq_map, sizeAll_congr h]
  | ternary c y n hc hy hn =>
    intro k m hk
    have hsplit : (Expr.ternary c y n).readingAfter k = k (.ternary c.reading y.reading n.reading) := rfl
    rw [hsplit, hk, term, Term.size, Term.size, hc.reading, hy.reading, hn.reading]

/-- What stands right of the last operator in the reading of an operation is no more than its right
operand. -/
theorem exists_right (k : Term → Term) (op : BinOp) (l r : Expr) :
    ∃ c x y, (Expr.binary op l r).readingAfter k = .binary c x y ∧ y.size ≤ r.term.size := by
  induction r generalizing k op l with
  | binary c a b _ ihb =>
    rw [readingAfter_binary]
    split
    · obtain ⟨d,x,y,hread,hle⟩ := ihb (.binary op (l.leftReading op k)) c a
      refine ⟨d,x,y,hread,hle.trans ?_⟩
      rw [term, Term.size]
      omega
    · exact ⟨op,_,_,rfl,(keepsSize _).reading.le⟩
  | _ =>
    rw [readingAfter_binary, if_neg (by simp [joins])]
    exact ⟨op,_,_,rfl,(keepsSize _).reading.le⟩

/-- An operation whose right operand joins it is read as another one. -/
theorem reading_ne_term {op : BinOp} {l r : Expr} (h : r.joins op = true) :
    (Expr.binary op l r).reading ≠ (Expr.binary op l r).term := by
  intro heq
  cases r with
  | binary c a b =>
    obtain ⟨d,x,y,hread,hle⟩ := exists_right (.binary op (l.leftReading op id)) c a b
    have hright : (Expr.binary op l (.binary c a b)).reading = .binary d x y := by
      rw [← hread, reading, readingAfter_binary, if_pos h]
    rw [hright, term] at heq
    obtain ⟨-,-,rfl⟩ := Term.binary.inj heq
    rw [term, Term.size] at hle
    omega
  | _ => cases h

theorem every_keepsRight {e : Expr} (h : e.reading = e.term) : e.Every KeepsRight := by
  induction e with
  | int v | str s | var name => trivial
  | binary op l r ihl ihr =>
    have hjoin : r.joins op = false := by
      cases hcase : r.joins op with
      | false => rfl
      | true => exact absurd h (reading_ne_term hcase)
    rw [reading_binary hjoin, term] at h
    obtain ⟨-,hl,hr⟩ := Term.binary.inj h
    exact ⟨keepsRight_binary.mpr hjoin,ihl hl,ihr hr⟩
  | unary op e ih => exact ⟨trivial,ih (Term.unary.inj h).2⟩
  | index array e ih => exact ⟨trivial,ih (Term.index.inj h).2⟩
  | call name args ih =>
    rw [reading_call, term, terms_eq_map] at h
    have hargs := List.map_inj_left.mp (Term.call.inj h).2
    exact ⟨trivial,(everyOf_iff args).mpr fun a ha => ih a ha (hargs a ha)⟩
  | ternary c y n ihc ihy ihn =>
    obtain ⟨hc,hy,hn⟩ := Term.ternary.inj h
    exact ⟨trivial,ihc hc,ihy hy,ihn hn⟩

/-- The text consists of tokens, all of them are read as the expression, and nothing else can be. -/
def ReadsBack (e : Expr) : Prop :=
  ∃ ts, Token.scan e.text.toList = some ts ∧ Term.read 0 ts = some (e.term,[]) ∧
    ∀ t, Term.ReadFrom e.text t ↔ t = e.term

/-- The text of an expression is read back as the expression itself if and only if no right operand
joins its operator. -/
theorem text_reads_back_iff (e : Expr) (hnamed : e.Every IsNamed) :
    e.ReadsBack ↔ e.Every KeepsRight := by
  have hread := readFrom_text hnamed
  constructor
  · rintro ⟨ts,-,-,honly⟩
    exact every_keepsRight ((honly e.reading).mp hread)
  · intro hkeep
    rw [reading_eq_term hkeep] at hread
    have hiff (t : Term) : Term.ReadFrom e.text t ↔ t = e.term := by
      constructor
      · intro ht
        exact ht.unique hread
      · rintro rfl
        exact hread
    obtain ⟨ts,hscan,hreads⟩ := hread
    exact ⟨ts,hscan,hreads.read_eq,hiff⟩

def nested : Expr :=
  .binary .sub (.unary .neg (.int (-3))) (.binary .mul (.binary .sub (.var "a") (.var "b"))
    (.unary .not (.call "f" [.str "x",.index "c" (.ternary (.var "i") (.int 1) (.int 2))])))

example : nested.text = "-(-3) - (a - b) * !f(\"x\", c[i ? 1 : 2])" := by decide

def bareDifference : Expr := .binary .add (.var "a") (.binary .sub (.var "b") (.var "c"))

theorem nested_reads_back : nested.Every IsNamed ∧ bareDifference.Every IsNamed ∧
    nested.ReadsBack ∧ ¬bareDifference.ReadsBack := by
  have hnested : nested.Every IsNamed := by decide
  have hbare : bareDifference.Every IsNamed := by decide
  refine ⟨hnested,hbare,(text_reads_back_iff nested hnested).mpr (by decide),?_⟩
  intro hback
  have hkeep := (text_reads_back_iff bareDifference hbare).mp hback
  exact absurd hkeep (by decide)

end Expr

end Cartridge
