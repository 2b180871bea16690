import Cartridge.Proofs.Code.Laid
import Cartridge.Proofs.Lower.Stmt

/-!
The lines of statements. A statement stays on its lines as long as the names it puts there as they
are do, and its place is noted in front of everything that is emitted for it.
-/
namespace Cartridge

open Text

def Lexeme.name? : Lexeme → Option String
  | .name s => some s
  | _ => none

theorem Lexeme.unbroken_text {w : Lexeme} : Unbroken w.text ↔ ∀ name ∈ w.name?, Unbroken name := by
  cases w with
  | name s => simp [text, name?]
  | number n => simp [text, name?]
  | str s => simp +decide [text, name?, CString.unbroken_escape]
  | binary op => cases op <;> decide
  | unary op => cases op <;> decide
  | _ => decide

namespace Expr

def names (e : Expr) : List String := (e.lexemes true).filterMap Lexeme.name?

/-- An expression stays on its line if and only if its names do. -/
theorem unbroken_text {e : Expr} : Unbroken e.text ↔ ∀ name ∈ e.names, Unbroken name := by
  have hjoin (words : List Lexeme) :
      Unbroken (String.join (words.map Lexeme.text)) ↔ ∀ w ∈ words, Unbroken w.text := by
    simp [Unbroken]
  rw [text, hjoin]
  simp only [Lexeme.unbroken_text]
  exact areUnbroken_filterMap.symm

end Expr

theorem Stmt.mem_walk (b : Stmt) : b ∈ b.walk := by
  cases b with
  | cond test yes no loc => cases no <;> simp [walk]
  | _ => simp [walk]

theorem Stmt.forall_mem_walkAll {P : Stmt → Prop} {stmts : List Stmt} :
    (∀ c ∈ walkAll stmts, P c) ↔ ∀ b ∈ stmts, ∀ c ∈ b.walk, P c := by
  simp only [mem_walkAll]
  constructor
  · intro h b hb c hc
    exact h c ⟨b,hb,hc⟩
  · rintro h c ⟨b,hb,hc⟩
    exact h b hb c hc

namespace Lower

open Code Code.Emission

def namesIn : Except LowerError Expr → List String
  | .ok e => e.names
  | .error _ => []

def exprNames (s : Scope) (d : Domain) (e : Expr) : List String :=
  namesIn (guardIndices s ((s.folder d).simplify e))

def subscriptNames (s : Scope) (array : String) (e : Expr) : List String :=
  namesIn ((guardIndices s ((s.folder s.options.domain).simplify e)).bind (checkSubscript s array))

/-- The names a statement puts on its own line as they are. -/
def shownNames (s : Scope) : Stmt → List String
  | .assign target _ value _ => target :: exprNames s (s.domainOf target) value
  | .assignIndex array subscript _ value _ =>
    array :: subscriptNames s array subscript ++ exprNames s (s.domainOf array) value
  | .cond test _ _ _ | .loop test _ _ => exprNames s s.options.domain test
  | .range counter _ _ _ _ => [counter]
  | .call name args _ => exprNames s s.options.domain (.call name args)
  | .changeScene _ _ | .raw _ _ => []

variable {s : Scope}

private theorem unbroken_of_map {r : Except LowerError Expr} {text : String}
    (h : r.map Expr.text = .ok text) : Unbroken text ↔ ∀ name ∈ namesIn r, Unbroken name := by
  cases r with
  | error e => cases h
  | ok e =>
    cases h
    exact Expr.unbroken_text

theorem unbroken_exprText {d : Domain} {e : Expr} {text : String} (h : exprText s d e = .ok text) :
    Unbroken text ↔ ∀ name ∈ exprNames s d e, Unbroken name := unbroken_of_map h

theorem unbroken_subscriptText {array : String} {e : Expr} {text : String}
    (h : subscriptText s array e = .ok text) :
    Unbroken text ↔ ∀ name ∈ subscriptNames s array e, Unbroken name := by
  refine unbroken_of_map (h ▸ ?_)
  rw [subscriptText]
  cases guardIndices s ((s.folder s.options.domain).simplify e) with
  | error err => rfl
  | ok e' =>
    change (checkSubscript s array e').map Expr.text =
      (checkSubscript s array e').bind fun e => .ok e.text
    cases checkSubscript s array e' <;> rfl

def KeepsLine (s : Scope) (b : Stmt) : Prop := ∀ name ∈ shownNames s b, Unbroken name

/-- What was emitted for one of some statements, on its own or as a further link of a chain, and
begins with the statement's place. -/
def EmittedFor (s : Scope) (stmts : List Stmt) (l : Location) (own : List Item) : Prop :=
  own.head? = some (.origin l) ∧ ∃ b ∈ stmts, b.location = some l ∧
    (own = (stmt s b).items ∨ own = (branch s (some [b])).items)

theorem forall_walk_cond {P : Stmt → Prop} {test : Expr} {yes : List Stmt}
    {no : Option (List Stmt)} {loc : Option Location} :
    (∀ c ∈ (Stmt.cond test yes no loc).walk, P c) ↔ P (.cond test yes no loc) ∧
      (∀ c ∈ Stmt.walkAll yes, P c) ∧ ∀ b ∈ no, ∀ c ∈ Stmt.walkAll b, P c := by
  cases no <;> simp [Stmt.walk, or_imp, forall_and]

theorem head?_origin_bind {l : Location} (f : Unit → Emission Unit) :
    (origin (some l) >>= f).items.head? = some (.origin l) := by
  rw [bind_ok (m := origin (some l)) rfl]
  rfl

theorem emittedFor_stmt {stmts : List Stmt} {b : Stmt} (hb : b ∈ stmts) :
    ∀ l ∈ b.location, EmittedFor s stmts l (stmt s b).items := by
  intro l hl
  refine ⟨?_,b,hb,hl,.inl rfl⟩
  cases b with
  | _ =>
    rw [stmt]
    cases hl
    exact head?_origin_bind _

private theorem laid_block_of {stmts body : List Stmt}
    (h : ∀ b ∈ body, (∀ c ∈ b.walk, c ∈ stmts) →
      (stmt s b).Laid (EmittedFor s stmts) (∀ c ∈ b.walk, KeepsLine s c))
    (hbody : ∀ c ∈ Stmt.walkAll body, c ∈ stmts) :
    (block s body).Laid (EmittedFor s stmts) (∀ c ∈ Stmt.walkAll body, KeepsLine s c) := by
  rw [Stmt.forall_mem_walkAll] at hbody ⊢
  rw [block_eq_each]
  exact .each fun b hb => h b hb (hbody b hb)

private theorem laid_all {stmts : List Stmt} :
    (∀ b, (∀ c ∈ b.walk, c ∈ stmts) →
      (stmt s b).Laid (EmittedFor s stmts) (∀ c ∈ b.walk, KeepsLine s c)) ∧
    ∀ no : Option (List Stmt), (∀ b ∈ no, ∀ c ∈ Stmt.walkAll b, c ∈ stmts) →
      (branch s no).Laid (EmittedFor s stmts) (∀ b ∈ no, ∀ c ∈ Stmt.walkAll b, KeepsLine s c) := by
  apply Lower.induction
  case assign =>
    intro target op value loc hwalk
    have hnoted := emittedFor_stmt (s := s) (hwalk _ (Stmt.mem_walk _))
    have htoken : Unbroken op.token := by cases op <;> decide
    rw [stmt] at hnoted ⊢
    refine .origin (.ofExcept_bind fun text htext => (laid_mark _).congr ?_) hnoted
    simp +decide [Stmt.walk, KeepsLine, shownNames, unbroken_exprText htext, htoken]
  case cond =>
    intro test yes no loc hyes hno hwalk
    have hnoted := emittedFor_stmt (s := s) (hwalk _ (Stmt.mem_walk _))
    rw [forall_walk_cond] at hwalk ⊢
    rw [stmt] at hnoted ⊢
    refine .origin (.ofExcept_bind fun text htext => ?_) hnoted
    refine .congr ((laid_mark _).bind ((laid_block_of hyes hwalk.2.1).bind
      ((hno hwalk.2.2).before (by simp +decide)))) (and_congr_left' ?_)
    simp +decide [KeepsLine, shownNames, unbroken_exprText htext]
  case loop =>
    intro test body loc hbody hwalk
    have hnoted := emittedFor_stmt (s := s) (hwalk _ (Stmt.mem_walk _))
    rw [Stmt.walk, List.forall_mem_cons] at hwalk ⊢
    rw [stmt] at hnoted ⊢
    refine .origin (.ofExcept_bind fun text htext => ?_) hnoted
    refine .congr ((laid_mark _).bind ((laid_block_of hbody hwalk.2).before
      (by simp +decide))) (and_congr_left' ?_)
    simp +decide [KeepsLine, shownNames, unbroken_exprText htext]
  case range =>
    intro counter first last body loc hbody hwalk
    have hnoted := emittedFor_stmt (s := s) (hwalk _ (Stmt.mem_walk _))
    have htype : Unbroken (counterType first last) := by
      rw [counterType]
      split_ifs <;> decide
    rw [Stmt.walk, List.forall_mem_cons] at hwalk ⊢
    rw [stmt] at hnoted ⊢
    refine .origin (.congr ((laid_mark _).bind ((laid_block_of hbody hwalk.2).before
      (by simp +decide))) (and_congr_left' ?_)) hnoted
    simp +decide [KeepsLine, shownNames, rangeHeader, htype]
  case call =>
    intro name args loc hwalk
    have hnoted := emittedFor_stmt (s := s) (hwalk _ (Stmt.mem_walk _))
    rw [stmt] at hnoted ⊢
    refine .origin (.ofExcept_bind fun text htext => (laid_mark _).congr ?_) hnoted
    simp +decide [Stmt.walk, KeepsLine, shownNames, unbroken_exprText htext]
  case changeScene =>
    intro scene loc hwalk
    have hnoted := emittedFor_stmt (s := s) (hwalk _ (Stmt.mem_walk _))
    rw [stmt] at hnoted ⊢
    refine .origin (.congr (Inert.laid ?_) ?_) hnoted
    · cases s.game.sceneIndex? scene <;> simp +decide [Name.scene, problem]
    · simp [Stmt.walk, KeepsLine, shownNames]
  case raw =>
    intro text loc hwalk
    have hnoted := emittedFor_stmt (s := s) (hwalk _ (Stmt.mem_walk _))
    rw [stmt] at hnoted ⊢
    refine .origin ((laid_mark _).congr ?_) hnoted
    simp [Stmt.walk, KeepsLine, shownNames]
  case assignIndex =>
    intro array subscript op value loc hwalk
    have hnoted := emittedFor_stmt (s := s) (hwalk _ (Stmt.mem_walk _))
    have htoken : Unbroken op.token := by cases op <;> decide
    rw [stmt] at hnoted ⊢
    refine .origin (.ofExcept_bind fun index hindex => .ofExcept_bind fun text htext =>
      (laid_mark _).congr ?_) hnoted
    simp +decide [Stmt.walk, KeepsLine, shownNames, unbroken_subscriptText hindex,
      unbroken_exprText htext, htoken, or_imp, forall_and, and_assoc]
  case absent =>
    intro _
    rw [branch]
    exact (inert_pure ()).laid.congr (by simp)
  case chain =>
    intro test yes no loc hyes hno hwalk
    have hwalk : ∀ c ∈ (Stmt.cond test yes no loc).walk, c ∈ stmts := by
      simpa [Stmt.walkAll] using hwalk
    have hself := hwalk _ (Stmt.mem_walk _)
    rw [forall_walk_cond] at hwalk
    have hchain : (branch s (some [.cond test yes no loc])).Laid (EmittedFor s stmts)
        (∀ c ∈ (Stmt.cond test yes no loc).walk, KeepsLine s c) := by
      rw [branch, forall_walk_cond]
      refine .ofExcept_bind fun text htext => .origin ?_ ?_
      · refine .congr ((laid_mark _).bind ((laid_block_of hyes hwalk.2.1).bind (hno hwalk.2.2)))
          (and_congr_left' ?_)
        simp +decide [elseIfText, KeepsLine, shownNames, unbroken_exprText htext]
      · rintro l ⟨⟩
        refine ⟨head?_origin_bind _,_,hself,rfl,.inr ?_⟩
        rw [branch, htext, bind_ok (m := ofExcept _) rfl]
        rfl
    exact hchain.congr (by simp [Stmt.walkAll])
  case other =>
    intro body hother hbody hwalk
    have hwalk := hwalk body rfl
    rw [branch_else hother]
    exact .congr (.after (laid_block_of hbody hwalk) (by simp +decide)) (by simp)

def KeepsLines (s : Scope) (b : Stmt) : Prop := ∀ c ∈ b.walk, KeepsLine s c

/-- Statements stay on their lines if and only if the names they show do, and every place among them
is that of a statement whose emission begins there. -/
theorem laid_block {stmts body : List Stmt} (h : ∀ b ∈ body, b ∈ stmts) :
    (block s body).Laid (EmittedFor s (Stmt.walkAll stmts)) (∀ b ∈ body, KeepsLines s b) := by
  rw [block_eq_each]
  refine .each fun b hb => laid_all.1 b fun c hc => ?_
  exact Stmt.mem_walkAll.mpr ⟨b,h b hb,hc⟩

end Lower

end Cartridge
