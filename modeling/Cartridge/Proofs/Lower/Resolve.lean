import Cartridge.Proofs.Game.Valid
import Cartridge.Proofs.Lower.Stmt

/-!
Statements in two steps. First the expressions of a statement are resolved: folded and checked. Then the
statement is written with the expressions this has left. All code of statements is written in this way,
so what holds of resolved expressions holds of all that stand in the code.
-/
namespace Cartridge.Lower

open Code Code.Emission

def resolveExpr (s : Scope) (d : Domain) (e : Expr) : Except LowerError Expr :=
  guardIndices s ((s.folder d).simplify e)

def resolveSubscript (s : Scope) (array : String) (e : Expr) : Except LowerError Expr :=
  (resolveExpr s s.options.domain e).bind (checkSubscript s array)

def resolveArgs (s : Scope) (args : List Expr) : Except LowerError (List Expr) :=
  guardAll s ((s.folder s.options.domain).simplifyAll args)

mutual

def resolve (s : Scope) : Stmt → Except LowerError Stmt
  | .assign target op value loc => do
    let value ← resolveExpr s (s.domainOf target) value
    return .assign target op value loc
  | .assignIndex array subscript op value loc => do
    let subscript ← resolveSubscript s array subscript
    let value ← resolveExpr s (s.domainOf array) value
    return .assignIndex array subscript op value loc
  | .cond test yes no loc => do
    let test ← resolveExpr s s.options.domain test
    let yes ← resolveAll s yes
    let no ← resolveBranch s no
    return .cond test yes no loc
  | .loop test body loc => do
    let test ← resolveExpr s s.options.domain test
    let body ← resolveAll s body
    return .loop test body loc
  | .range counter first last body loc => do
    let body ← resolveAll s body
    return .range counter first last body loc
  | .call name args loc => do
    let args ← resolveArgs s args
    return .call name args loc
  | .changeScene scene loc => return .changeScene scene loc
  | .raw text loc => return .raw text loc

def resolveAll (s : Scope) : List Stmt → Except LowerError (List Stmt)
  | [] => return []
  | first :: rest => do
    let first ← resolve s first
    let rest ← resolveAll s rest
    return first :: rest

def resolveBranch (s : Scope) : Option (List Stmt) → Except LowerError (Option (List Stmt))
  | none => return none
  | some stmts => do
    let stmts ← resolveAll s stmts
    return some stmts

end

mutual

def write (s : Scope) : Stmt → Emission Unit
  | .assign target op value loc => do
    origin loc
    line s!"{target} {op.token} {value.text};"
  | .assignIndex array subscript op value loc => do
    origin loc
    line s!"{array}[{subscript.text}] {op.token} {value.text};"
  | .cond test yes no loc => do
    origin loc
    Emission.block s!"if ({test.text})"
    writeAll s yes
    writeBranch s no
    close
  | .loop test body loc => do
    origin loc
    Emission.block s!"while ({test.text})"
    writeAll s body
    close
  | .range counter first last body loc => do
    origin loc
    Emission.block (rangeHeader counter first last)
    writeAll s body
    close
  | .call name args loc => do
    origin loc
    line s!"{(Expr.call name args).text};"
  | .changeScene scene loc => do
    origin loc
    match s.game.sceneIndex? scene with
    | some _ => line s!"change_scene({Name.scene scene});"
    | none => problem .unknownScene s!"unknown scene '{scene}'" loc
  | .raw text loc => do
    origin loc
    lines text

def writeBranch (s : Scope) : Option (List Stmt) → Emission Unit
  | none => return ()
  | some [.cond test yes no loc] => do
    origin loc
    reopen (elseIfText test.text)
    writeAll s yes
    writeBranch s no
  | some stmts => do
    reopen elseText
    writeAll s stmts

def writeAll (s : Scope) : List Stmt → Emission Unit
  | [] => return ()
  | first :: rest => do
    write s first
    writeAll s rest

end

variable {s : Scope}

section texts

theorem map_eq_ok {ε α β : Type} {r : Except ε α} {f : α → β} {b : β} (h : r.map f = .ok b) :
    ∃ a, r = .ok a ∧ f a = b := by
  cases r with
  | error err => cases h
  | ok a => exact ⟨a,rfl,Except.ok.inj h⟩

theorem resolve_of_exprText {d : Domain} {e : Expr} {text : String} (h : exprText s d e = .ok text) :
    ∃ e', resolveExpr s d e = .ok e' ∧ e'.text = text := map_eq_ok (r := resolveExpr s d e) h

theorem subscriptText_eq (array : String) (e : Expr) :
    subscriptText s array e = (resolveSubscript s array e).map Expr.text := by
  rw [subscriptText, resolveSubscript, resolveExpr]
  cases guardIndices s ((s.folder s.options.domain).simplify e) with
  | error err => rfl
  | ok e' =>
    change (checkSubscript s array e').bind (fun e => .ok e.text) = (checkSubscript s array e').map Expr.text
    cases checkSubscript s array e' <;> rfl

theorem resolveExpr_call (name : String) (args : List Expr) :
    resolveExpr s s.options.domain (.call name args) = (resolveArgs s args).map (Expr.call name) := by
  change (guardAll s _).bind (fun args => .ok (.call name args)) = (guardAll s _).map (Expr.call name)
  cases guardAll s ((s.folder s.options.domain).simplifyAll args) <;> rfl

end texts

section ends
variable {α : Type}

theorem ofExcept_ok_bind (a : α) (f : α → Emission Unit) : ofExcept (.ok a) >>= f = f a := pure_bind a f

theorem ends_ofExcept_bind {r : Except LowerError α} {f : α → Emission Unit} :
    (ofExcept r >>= f).Ends ↔ ∃ a, r = .ok a ∧ (f a).Ends := by
  cases r with
  | error err => exact iff_of_false nofun (by simp)
  | ok a => simp [ofExcept_ok_bind]

end ends

/-- Code that ends is what is written for a result. -/
def IsWritten {α : Type} (w : α → Emission Unit) (r : Except LowerError α) (m : Emission Unit) : Prop :=
  m.Ends → ∃ a, r = .ok a ∧ m = w a

/-- Only conditionals are resolved to conditionals. -/
theorem exists_cond_of_resolve {a : Stmt} {test : Expr} {yes : List Stmt} {no : Option (List Stmt)}
    {loc : Option Location} (h : resolve s a = .ok (.cond test yes no loc)) :
    ∃ test yes no, a = .cond test yes no loc := by
  cases a with
  | cond test' yes' no' loc' =>
    rw [resolve] at h
    obtain ⟨_,-,h⟩ := bind_eq_ok h
    obtain ⟨_,-,h⟩ := bind_eq_ok h
    obtain ⟨_,-,h⟩ := bind_eq_ok h
    cases h
    exact ⟨test',yes',no',rfl⟩
  | assignIndex | loop =>
    rw [resolve] at h
    obtain ⟨_,-,h⟩ := bind_eq_ok h
    obtain ⟨_,-,h⟩ := bind_eq_ok h
    cases h
  | assign | range | call =>
    rw [resolve] at h
    obtain ⟨_,-,h⟩ := bind_eq_ok h
    cases h
  | changeScene | raw =>
    rw [resolve] at h
    cases h

/-- A branch that is no single conditional is resolved to one that is none. -/
theorem writeBranch_else {stmts stmts' : List Stmt} (h : resolveAll s stmts = .ok stmts')
    (hother : ∀ test yes no loc, stmts ≠ [.cond test yes no loc]) :
    writeBranch s (some stmts') = (do reopen elseText; writeAll s stmts') := by
  rw [writeBranch]
  rintro test yes no loc rfl
  cases stmts with
  | nil => cases h
  | cons a rest =>
    rw [resolveAll] at h
    obtain ⟨a',ha,h⟩ := bind_eq_ok h
    obtain ⟨rest',hrest,h⟩ := bind_eq_ok h
    cases h
    obtain ⟨test,yes,no,rfl⟩ := exists_cond_of_resolve ha
    cases rest with
    | nil => exact hother test yes no loc rfl
    | cons b rest =>
      rw [resolveAll] at hrest
      obtain ⟨_,-,hrest⟩ := bind_eq_ok hrest
      obtain ⟨_,-,hrest⟩ := bind_eq_ok hrest
      cases hrest

private theorem isWritten_all :
    (∀ a, IsWritten (write s) (resolve s a) (stmt s a)) ∧
      ∀ no, IsWritten (writeBranch s) (resolveBranch s no) (branch s no) := by
  have hblock {stmts : List Stmt} (h : ∀ a ∈ stmts, IsWritten (write s) (resolve s a) (stmt s a)) :
      IsWritten (writeAll s) (resolveAll s stmts) (block s stmts) := by
    induction stmts with
    | nil => exact fun _ => ⟨[],rfl,by rw [block, writeAll]⟩
    | cons a stmts ih =>
      obtain ⟨ha,hstmts⟩ := List.forall_mem_cons.mp h
      intro hends
      rw [block, ends_bind] at hends
      obtain ⟨a',hres,hcode⟩ := ha hends.1
      obtain ⟨stmts',hresAll,hcodeAll⟩ := ih hstmts hends.2
      refine ⟨a' :: stmts',?_,by rw [block, writeAll, hcode, hcodeAll]⟩
      rw [resolveAll, hres, hresAll]
      rfl
  apply Lower.induction
  case assign =>
    intro target op value loc hends
    rw [stmt, ends_bind, ends_ofExcept_bind] at hends
    obtain ⟨-,text,htext,-⟩ := hends
    obtain ⟨value',hvalue,rfl⟩ := resolve_of_exprText htext
    refine ⟨.assign target op value' loc,?_,by rw [stmt, write, htext, ofExcept_ok_bind]⟩
    rw [resolve, hvalue]
    rfl
  case cond =>
    intro test yes no loc hyes hno hends
    rw [stmt, ends_bind, ends_ofExcept_bind] at hends
    obtain ⟨-,text,htext,hends⟩ := hends
    simp only [ends_bind] at hends
    obtain ⟨test',htest,rfl⟩ := resolve_of_exprText htext
    obtain ⟨yes',hresYes,hcodeYes⟩ := hblock hyes hends.2.1
    obtain ⟨no',hresNo,hcodeNo⟩ := hno hends.2.2.1
    refine ⟨.cond test' yes' no' loc,?_,?_⟩
    · rw [resolve, htest, hresYes, hresNo]
      rfl
    · rw [stmt, write, htext, ofExcept_ok_bind, hcodeYes, hcodeNo]
  case loop =>
    intro test body loc hbody hends
    rw [stmt, ends_bind, ends_ofExcept_bind] at hends
    obtain ⟨-,text,htext,hends⟩ := hends
    simp only [ends_bind] at hends
    obtain ⟨test',htest,rfl⟩ := resolve_of_exprText htext
    obtain ⟨body',hres,hcode⟩ := hblock hbody hends.2.1
    refine ⟨.loop test' body' loc,?_,?_⟩
    · rw [resolve, htest, hres]
      rfl
    · rw [stmt, write, htext, ofExcept_ok_bind, hcode]
  case range =>
    intro counter first last body loc hbody hends
    simp only [stmt, ends_bind] at hends
    obtain ⟨body',hres,hcode⟩ := hblock hbody hends.2.2.1
    refine ⟨.range counter first last body' loc,?_,by rw [stmt, write, hcode]⟩
    rw [resolve, hres]
    rfl
  case call =>
    intro name args loc hends
    rw [stmt, ends_bind, ends_ofExcept_bind] at hends
    obtain ⟨-,text,htext,-⟩ := hends
    obtain ⟨e',hcall,rfl⟩ := resolve_of_exprText htext
    rw [resolveExpr_call] at hcall
    obtain ⟨args',hargs,rfl⟩ := map_eq_ok hcall
    refine ⟨.call name args' loc,?_,by rw [stmt, write, htext, ofExcept_ok_bind]⟩
    rw [resolve, hargs]
    rfl
  case changeScene =>
    intro scene loc _
    refine ⟨.changeScene scene loc,by rw [resolve]; rfl,?_⟩
    cases h : s.game.sceneIndex? scene <;> simp only [stmt, write, h]
  case raw =>
    intro text loc _
    exact ⟨.raw text loc,by rw [resolve]; rfl,by rw [stmt, write]⟩
  case assignIndex =>
    intro array subscript op value loc hends
    rw [stmt, ends_bind, ends_ofExcept_bind] at hends
    obtain ⟨-,sub,hsub,hends⟩ := hends
    obtain ⟨text,htext,-⟩ := ends_ofExcept_bind.mp hends
    obtain ⟨value',hvalue,rfl⟩ := resolve_of_exprText htext
    obtain ⟨subscript',hres,rfl⟩ := map_eq_ok ((subscriptText_eq array subscript).symm.trans hsub)
    refine ⟨.assignIndex array subscript' op value' loc,?_,?_⟩
    · rw [resolve, hres, hvalue]
      rfl
    · rw [stmt, write, hsub, ofExcept_ok_bind, htext, ofExcept_ok_bind]
  case absent => exact fun _ => ⟨none,by rw [resolveBranch]; rfl,by rw [branch, writeBranch]⟩
  case chain =>
    intro test yes no loc hyes hno hends
    rw [branch, ends_ofExcept_bind] at hends
    obtain ⟨text,htext,hends⟩ := hends
    simp only [ends_bind] at hends
    obtain ⟨test',htest,rfl⟩ := resolve_of_exprText htext
    obtain ⟨yes',hresYes,hcodeYes⟩ := hblock hyes hends.2.2.1
    obtain ⟨no',hresNo,hcodeNo⟩ := hno hends.2.2.2
    refine ⟨some [.cond test' yes' no' loc],?_,?_⟩
    · rw [resolveBranch, resolveAll, resolve, htest, hresYes, hresNo, resolveAll]
      rfl
    · rw [branch, writeBranch, htext, ofExcept_ok_bind, hcodeYes, hcodeNo]
  case other =>
    intro stmts hother hstmts hends
    rw [branch_else hother, ends_bind] at hends
    obtain ⟨stmts',hres,hcode⟩ := hblock hstmts hends.2
    refine ⟨some stmts',?_,by rw [branch_else hother, writeBranch_else hres hother, hcode]⟩
    rw [resolveBranch, hres]
    rfl

/-- The code of a statement that can be lowered is what is written for the resolved statement. -/
theorem isWritten_stmt (a : Stmt) : IsWritten (write s) (resolve s a) (stmt s a) := isWritten_all.1 a

section expressions

/-- The expressions a statement has of its own, with the domains they are folded in. What is assigned
through a subscript is an element as any other. -/
def ownExprs (s : Scope) : Stmt → List (Domain × Expr)
  | .assign target _ value _ => [(s.domainOf target,value)]
  | .assignIndex array subscript _ value _ =>
    [(s.options.domain,.index array subscript),(s.domainOf array,value)]
  | .cond test _ _ _ | .loop test _ _ => [(s.options.domain,test)]
  | .call name args _ => [(s.options.domain,.call name args)]
  | .range _ _ _ _ _ | .changeScene _ _ | .raw _ _ => []

def exprs (s : Scope) (stmts : List Stmt) : List Expr := (stmts.flatMap (ownExprs s)).map Prod.snd

def folded (s : Scope) (stmts : List Stmt) : List Expr :=
  (stmts.flatMap (ownExprs s)).map fun (d,e) => (s.folder d).simplify e

theorem exprs_append (xs ys : List Stmt) : exprs s (xs ++ ys) = exprs s xs ++ exprs s ys := by
  simp [exprs]

theorem folded_append (xs ys : List Stmt) : folded s (xs ++ ys) = folded s xs ++ folded s ys := by
  simp [folded]

theorem guardAll_append {xs ys xs' ys' : List Expr} (hxs : guardAll s xs = .ok xs')
    (hys : guardAll s ys = .ok ys') : guardAll s (xs ++ ys) = .ok (xs' ++ ys') := by
  induction xs generalizing xs' with
  | nil =>
    cases hxs
    exact hys
  | cons x xs ih =>
    rw [guardAll] at hxs
    obtain ⟨x',hx,hxs⟩ := bind_eq_ok hxs
    obtain ⟨rest,hrest,hxs⟩ := bind_eq_ok hxs
    cases hxs
    rw [List.cons_append, guardAll, hx, ih hrest]
    rfl

theorem guardAll_singleton {e e' : Expr} (h : guardIndices s e = .ok e') : guardAll s [e] = .ok [e'] := by
  rw [guardAll, h]
  rfl

theorem guardIndices_element {array : String} {e e' : Expr} (h : resolveSubscript s array e = .ok e') :
    guardIndices s ((s.folder s.options.domain).simplify (.index array e)) = .ok (.index array e') := by
  obtain ⟨inner,hinner,hcheck⟩ := bind_eq_ok h
  rw [resolveExpr] at hinner
  rw [Folder.simplify, guardIndices, hinner]
  change (checkSubscript s array inner).bind (fun e => Except.ok (Expr.index array e)) = _
  rw [hcheck]
  rfl

/-- What stands in the code of a statement are its expressions, folded and checked. -/
theorem guardAll_of_resolve {a a' : Stmt} (h : resolve s a = .ok a') :
    guardAll s (folded s a.walk) = .ok (exprs s a'.walk) := by
  have hall {stmts stmts' : List Stmt} (ih : ∀ a ∈ stmts, ∀ {a'}, resolve s a = .ok a' →
      guardAll s (folded s a.walk) = .ok (exprs s a'.walk)) (h : resolveAll s stmts = .ok stmts') :
      guardAll s (folded s (Stmt.walkAll stmts)) = .ok (exprs s (Stmt.walkAll stmts')) := by
    induction stmts generalizing stmts' with
    | nil =>
      cases h
      rfl
    | cons a stmts iha =>
      obtain ⟨ha,hstmts⟩ := List.forall_mem_cons.mp ih
      rw [resolveAll] at h
      obtain ⟨a',hres,h⟩ := bind_eq_ok h
      obtain ⟨rest,hrest,h⟩ := bind_eq_ok h
      cases h
      rw [Stmt.walkAll, Stmt.walkAll, folded_append, exprs_append]
      exact guardAll_append (ha hres) (iha hstmts hrest)
  induction a generalizing a' with
  | assign target op value loc =>
    rw [resolve] at h
    obtain ⟨value',hvalue,h⟩ := bind_eq_ok h
    cases h
    exact guardAll_singleton hvalue
  | cond test yes no loc ihyes ihno =>
    rw [resolve] at h
    obtain ⟨test',htest,h⟩ := bind_eq_ok h
    obtain ⟨yes',hyes,h⟩ := bind_eq_ok h
    obtain ⟨no',hno,h⟩ := bind_eq_ok h
    cases h
    have hself := guardAll_append (guardAll_singleton htest) (hall ihyes hyes)
    cases no with
    | none =>
      cases hno
      exact hself
    | some b =>
      rw [resolveBranch] at hno
      obtain ⟨b',hb,hno⟩ := bind_eq_ok hno
      cases hno
      have hbranch := guardAll_append hself (hall (ihno b rfl) hb)
      rw [Stmt.walk, Stmt.walk, folded_append, exprs_append]
      exact hbranch
  | loop test body loc ih =>
    rw [resolve] at h
    obtain ⟨test',htest,h⟩ := bind_eq_ok h
    obtain ⟨body',hbody,h⟩ := bind_eq_ok h
    cases h
    exact guardAll_append (guardAll_singleton htest) (hall ih hbody)
  | range counter first last body loc ih =>
    rw [resolve] at h
    obtain ⟨body',hbody,h⟩ := bind_eq_ok h
    cases h
    exact hall ih hbody
  | call name args loc =>
    rw [resolve] at h
    obtain ⟨args',hargs,h⟩ := bind_eq_ok h
    cases h
    have hcall := resolveExpr_call (s := s) name args
    rw [hargs] at hcall
    exact guardAll_singleton hcall
  | changeScene scene loc | raw text loc =>
    rw [resolve] at h
    cases h
    rfl
  | assignIndex array subscript op value loc =>
    rw [resolve] at h
    obtain ⟨subscript',hsub,h⟩ := bind_eq_ok h
    obtain ⟨value',hvalue,h⟩ := bind_eq_ok h
    cases h
    exact guardAll_append (guardAll_singleton (guardIndices_element hsub)) (guardAll_singleton hvalue)

end expressions

end Cartridge.Lower
