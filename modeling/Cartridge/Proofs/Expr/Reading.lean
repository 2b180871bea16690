import Mathlib.Tactic.Common
import Cartridge.Proofs.Expr.Grammar
import Cartridge.Proofs.Expr.Scan

/-!
How the text of an expression is read back. A right operand that stands without parentheses beside an
operator of its own level is not read as one operand: the operators before it join its left end.
-/
namespace Cartridge

namespace Expr

def isAt (level : Level) : Expr → Bool
  | .binary op _ _ => op.level = level
  | _ => false

/-- A right operand stands without parentheses although its operator is of the same level. -/
def joins (parent : BinOp) : Expr → Bool
  | .binary op _ _ => parent.regroups op
  | _ => false

mutual

/-- The reading of an expression's text after a text that puts what is read next into `k`. -/
def readingAfter (k : Term → Term) : Expr → Term
  | .int v =>
    k (if v < 0 then .unary .neg (.number v.toInt.natAbs) else .number v.toInt.natAbs)
  | .str s => k (.text (CString.escape s))
  | .var name => k (.name name)
  | .binary op l r =>
    let left := if l.isAt op.level then readingAfter k l else k (readingAfter id l)
    if r.joins op then readingAfter (.binary op left) r else .binary op left (readingAfter id r)
  | .unary op e => k (.unary op (readingAfter id e))
  | .index array e => k (.index array (readingAfter id e))
  | .call name args => k (.call name (readings args))
  | .ternary c y n => k (.ternary (readingAfter id c) (readingAfter id y) (readingAfter id n))

def readings : List Expr → List Term
  | [] => []
  | e :: es => readingAfter id e :: readings es

end

def reading (e : Expr) : Term := e.readingAfter id

def leftReading (op : BinOp) (k : Term → Term) (l : Expr) : Term :=
  if l.isAt op.level then l.readingAfter k else k l.reading

theorem readingAfter_binary (k : Term → Term) (op : BinOp) (l r : Expr) :
    (Expr.binary op l r).readingAfter k =
      if r.joins op then r.readingAfter (.binary op (l.leftReading op k))
      else .binary op (l.leftReading op k) r.reading := by
  rw [readingAfter]
  rfl

theorem readings_eq_map (args : List Expr) : readings args = args.map reading := by
  induction args with
  | nil => rfl
  | cons e args ih => rw [readings, List.map_cons, ih, reading]

def stage : Expr → Nat
  | .binary op _ _ => op.stage
  | .unary _ _ => 11
  | .int v => if v < 0 then 11 else 12
  | _ => 12

def tokens (outermost : Bool) (e : Expr) : List Token := (e.lexemes outermost).map Lexeme.token

theorem tokens_enclose (xs : List Lexeme) :
    (enclose xs).map Lexeme.token = .sign "(" :: (xs.map Lexeme.token ++ [.sign ")"]) := by
  simp [enclose, Lexeme.token]

def operandTokens (parent : BinOp) (onRight : Bool) (e : Expr) : List Token :=
  if e.enclosedIn parent onRight then .sign "(" :: (e.tokens true ++ [.sign ")"]) else e.tokens false

theorem tokens_binary (outermost : Bool) (op : BinOp) (l r : Expr) :
    (Expr.binary op l r).tokens outermost =
      l.operandTokens op false ++ .sign op.token :: r.operandTokens op true := by
  simp only [tokens, operandTokens, lexemes, List.map_append, List.map_cons, Lexeme.token,
    apply_ite (List.map Lexeme.token), tokens_enclose]

theorem isAt_of_joins {parent : BinOp} {e : Expr} (h : e.joins parent = true) :
    e.isAt parent.level = true := by
  cases e with
  | binary op l r =>
    have hlevel : ∀ c : BinOp, parent.regroups c = true → c.level = parent.level := by
      cases parent <;> intro c hc <;> cases c <;> simp_all [BinOp.regroups, BinOp.level]
    simpa [isAt] using hlevel op h
  | _ => cases h

theorem stage_of_isAt {op : BinOp} {e : Expr} (h : e.isAt op.level = true) : e.stage = op.stage := by
  cases e with
  | binary c l r =>
    have hlevel : c.level = op.level := by simpa [isAt] using h
    simp [stage, BinOp.stage, hlevel]
  | _ => cases h

/-- An operand that is not of its operator's level binds tighter where it has no parentheses. -/
theorem stage_of_not_enclosed {op : BinOp} {onRight : Bool} {e : Expr}
    (hat : e.isAt op.level = false) (he : e.enclosedIn op onRight = false) : op.stage < e.stage := by
  cases e with
  | binary c l r =>
    have hne : c.level ≠ op.level := by simpa [isAt] using hat
    have hrank : ¬c.level.rank < op.level.rank := by simpa [enclosedIn, hne] using he
    have hinj : c.level.rank ≠ op.level.rank := by
      intro heq
      apply hne
      revert heq
      cases c.level <;> cases op.level <;> decide
    simp only [stage, BinOp.stage]
    omega
  | int v =>
    have hle := op.stage_le
    simp only [stage]
    split_ifs <;> omega
  | _ =>
    have hle := op.stage_le
    simp only [stage]
    omega

theorem stage_le (e : Expr) : e.stage ≤ 12 := by
  cases e with
  | binary op l r => exact op.stage_le.trans (by omega)
  | int v =>
    simp only [stage]
    split_ifs <;> omega
  | _ => simp [stage]

theorem stage_pos (e : Expr) : 0 < e.stage := by
  cases e with
  | binary op l r => exact op.stage_pos
  | int v =>
    simp only [stage]
    split_ifs <;> omega
  | _ => simp [stage]

open Term

/-- Tokens that put a term of the next stage after them into `k`. -/
def Precedes (stage : Nat) (ps : List Token) (k : Term → Term) : Prop :=
  ∀ ts t, Reads (stage + 1) ts t → Reads stage (ps ++ ts) (k t)

/-- The text of an expression is read as its reading, alone and after other operands. -/
structure IsRead (e : Expr) : Prop where
  after : e.stage ≤ 10 → ∀ ps k, Precedes e.stage ps k →
    Reads e.stage (ps ++ e.tokens false) (e.readingAfter k)
  inside : Reads e.stage (e.tokens false) e.reading
  alone : Reads 0 (e.tokens true) e.reading

theorem IsRead.operand {op : BinOp} {onRight : Bool} {e : Expr} (h : e.IsRead)
    (he : e.isAt op.level = true → e.enclosedIn op onRight = true) :
    Reads (op.stage + 1) (e.operandTokens op onRight) e.reading := by
  have hle := op.stage_le
  unfold operandTokens
  split_ifs with hp
  · exact (Reads.enclosed h.alone).loosen (by omega) le_rfl
  · have hat : e.isAt op.level = false := by
      cases hcase : e.isAt op.level with
      | false => rfl
      | true => exact absurd (he hcase) hp
    have hlt := stage_of_not_enclosed hat (by simpa using hp)
    exact h.inside.loosen hlt e.stage_le

/-- The left operand of an operator with what precedes it. -/
theorem IsRead.left {op : BinOp} {l : Expr} (h : l.IsRead) {ps : List Token} {k : Term → Term}
    (hk : Precedes op.stage ps k) :
    Reads op.stage (ps ++ l.operandTokens op false) (l.leftReading op k) := by
  unfold leftReading
  split_ifs with hat
  · have hstage := stage_of_isAt hat
    have hbare : l.enclosedIn op false = false := by
      cases l <;> simp_all [isAt, enclosedIn]
    rw [operandTokens, if_neg (by simp [hbare]), ← hstage]
    exact h.after (hstage ▸ op.stage_le) ps k (hstage ▸ hk)
  · exact hk _ _ (h.operand (fun hc => absurd hc hat))

theorem IsRead.binary {op : BinOp} {l r : Expr} (hl : l.IsRead) (hr : r.IsRead) :
    (Expr.binary op l r).IsRead := by
  have hafter : ∀ ps k, Precedes op.stage ps k →
      Reads op.stage (ps ++ (Expr.binary op l r).tokens false) ((Expr.binary op l r).readingAfter k) := by
    intro ps k hk
    have hleft := hl.left hk
    rw [tokens_binary, readingAfter_binary, ← List.append_assoc]
    split_ifs with hjoin
    · have hat := isAt_of_joins hjoin
      have hstage := stage_of_isAt hat
      have hbare : r.enclosedIn op true = false := by
        cases r <;> simp_all [joins, isAt, enclosedIn]
      have hnext : Precedes op.stage (ps ++ l.operandTokens op false ++ [.sign op.token])
          (.binary op (l.leftReading op k)) := by
        intro ts t ht
        rw [List.append_assoc, List.singleton_append]
        exact .binary op hleft ht
      have hread := hr.after (hstage ▸ op.stage_le) _ _ (hstage ▸ hnext)
      have htokens : r.operandTokens op true = r.tokens false := by simp [operandTokens, hbare]
      rw [hstage, List.append_assoc, List.singleton_append] at hread
      rwa [htokens]
    · refine .binary op hleft (hr.operand fun hat => ?_)
      cases r <;> simp_all [joins, isAt, enclosedIn]
  have hinside : Reads op.stage ((Expr.binary op l r).tokens false) (Expr.binary op l r).reading :=
    hafter [] id fun ts t ht => ht.loosen (by omega) (Nat.succ_le_succ (op.stage_le.trans (by omega)))
  refine ⟨fun _ => hafter,hinside,?_⟩
  rw [tokens_binary true, ← tokens_binary false]
  exact hinside.loosen (by omega) (op.stage_le.trans (by omega))

/-- An expression that is no chain of operands is read the same way wherever it stands. -/
theorem IsRead.of_inside {e : Expr} (hs : 11 ≤ e.stage) (ht : e.tokens true = e.tokens false)
    (h : Reads e.stage (e.tokens false) e.reading) : e.IsRead :=
  ⟨fun hle => absurd hle (by omega),h,ht ▸ h.loosen (by omega) e.stage_le⟩

theorem IsRead.int (v : Int32) : (Expr.int v).IsRead := by
  refine .of_inside ?_ rfl ?_
  · simp only [stage]
    split_ifs <;> omega
  · simp only [stage, tokens, lexemes, reading, readingAfter, id]
    split_ifs
    · exact .unary .neg ((Reads.number _).loosen (by omega) le_rfl)
    · exact .number _

theorem IsRead.unary {op : UnOp} {e : Expr} (h : e.IsRead) : (Expr.unary op e).IsRead := by
  refine .of_inside le_rfl rfl ?_
  simp only [tokens, lexemes, List.map_cons, apply_ite (List.map Lexeme.token), tokens_enclose]
  refine .unary op ?_
  split_ifs with hp
  · exact (Reads.enclosed h.alone).loosen (by omega) le_rfl
  · have hstage : 11 ≤ e.stage := by
      cases e with
      | binary | ternary => exact absurd rfl hp
      | int v =>
        simp only [stage]
        split_ifs <;> omega
      | _ => simp [stage]
    exact h.inside.loosen hstage e.stage_le

theorem IsRead.index {array : String} {e : Expr} (h : e.IsRead) : (Expr.index array e).IsRead := by
  refine .of_inside (by simp [stage]) rfl ?_
  simpa [tokens, lexemes, Lexeme.token, stage, reading, readingAfter] using Reads.index array h.alone

private theorem map_token_moreArgs (xs : List Lexeme) (args : List Expr) :
    (xs ++ moreArgs args).map Lexeme.token =
      [.sign ","].intercalate (xs.map Lexeme.token :: args.map (tokens true)) := by
  induction args generalizing xs with
  | nil => simp [moreArgs, List.intercalate]
  | cons a args ih =>
    have ha := ih (lexemes true a)
    simp only [List.map_append] at ha
    simp [moreArgs, List.intercalate, ha, Lexeme.token, tokens]

theorem tokens_call (outermost : Bool) (f : String) (args : List Expr) :
    (Expr.call f args).tokens outermost =
      .name f :: .sign "(" :: ([.sign ","].intercalate (args.map (tokens true)) ++ [.sign ")"]) := by
  cases args with
  | nil => rfl
  | cons a args =>
    have hargs := map_token_moreArgs (a.lexemes true) args
    rw [List.map_cons, tokens, tokens, lexemes, ← hargs]
    simp [Lexeme.token]

theorem reading_call (f : String) (args : List Expr) :
    (Expr.call f args).reading = .call f (args.map reading) := by
  rw [reading, readingAfter, readings_eq_map]
  rfl

theorem IsRead.call {f : String} {args : List Expr} (h : ∀ a ∈ args, a.IsRead) :
    (Expr.call f args).IsRead := by
  have hcall := Reads.call f (args.map fun a => (a.tokens true,a.reading))
    (by simpa using fun a ha => (h a ha).alone)
  simp only [List.map_map, Function.comp_def] at hcall
  refine .of_inside (by simp [stage]) ?_ ?_
  · rw [tokens_call, tokens_call]
  · rw [tokens_call, reading_call]
    exact hcall

theorem IsRead.ternary {c y n : Expr} (hc : c.IsRead) (hy : y.IsRead) (hn : n.IsRead) :
    (Expr.ternary c y n).IsRead := by
  have halone : Reads 0 ((Expr.ternary c y n).tokens true) (Expr.ternary c y n).reading := by
    have hread := Reads.ternary (hc.inside.loosen c.stage_pos c.stage_le)
      (hy.inside.loosen (Nat.zero_le _) y.stage_le) (hn.inside.loosen (Nat.zero_le _) n.stage_le)
    simpa [tokens, lexemes, Lexeme.token, reading, readingAfter] using hread
  refine ⟨by simp [stage],?_,halone⟩
  have htokens : (Expr.ternary c y n).tokens false =
      .sign "(" :: ((Expr.ternary c y n).tokens true ++ [.sign ")"]) := by
    simp [tokens, lexemes, enclose, Lexeme.token]
  rw [htokens]
  exact .enclosed halone

theorem isRead (e : Expr) : e.IsRead := by
  induction e with
  | int v => exact .int v
  | str s => exact .of_inside (by simp [stage]) rfl (.text _)
  | var s => exact .of_inside (by simp [stage]) rfl (.name _)
  | binary op l r hl hr => exact hl.binary hr
  | unary op e h => exact h.unary
  | index array e h => exact h.index
  | call f args h => exact .call h
  | ternary c y n hc hy hn => exact hc.ternary hy hn

/-- The text of an expression with C names is read as its reading. -/
theorem readFrom_text {e : Expr} (h : e.Every IsNamed) : ReadFrom e.text e.reading :=
  ⟨e.tokens true,scan_text h,e.isRead.alone⟩

end Expr

end Cartridge
