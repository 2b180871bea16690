import Cartridge.Proofs.Recorder.Discipline

/-!
Chains of conditionals while they are recorded. A branch for all other cases ends a chain, unless
that branch holds nothing but a conditional: then the chain is taken to go on with it.
-/
namespace Cartridge

/-- A conditional whose chain has no last branch yet. The chain goes on where an else branch is a
single conditional. -/
inductive Stmt.OpenChain : Stmt → Prop
  | last (test : Expr) (yes : List Stmt) (loc : Option Location) :
      OpenChain (.cond test yes none loc)
  | link (test : Expr) (yes : List Stmt) (loc : Option Location) {next : Stmt}
      (h : OpenChain next) : OpenChain (.cond test yes (some [next]) loc)

def Stmt.AreOpenChain (stmts : List Stmt) : Prop := ∃ next, stmts = [next] ∧ next.OpenChain

namespace Recorder

/-- A branch can be attached to open chains and to nothing else. -/
theorem isSome_extendChain {branch : List Stmt} {a : Stmt} :
    (extendChain branch a).isSome ↔ a.OpenChain := by
  constructor
  · intro h
    fun_induction extendChain branch a with
    | case1 test yes loc => exact .last test yes loc
    | case2 test yes next loc ih => exact .link test yes loc (ih (by simpa using h))
    | case3 => cases h
  · intro h
    induction h with
    | last => rfl
    | link test yes loc h ih => simpa [extendChain] using ih

/-- A conditional, the ones that follow it in else branches, and the else branch of the last. -/
def ladder (no : Option (List Stmt)) (first : Expr × List Stmt) : List (Expr × List Stmt) → Stmt
  | [] => .cond first.1 first.2 no none
  | next :: rest => .cond first.1 first.2 (some [ladder no next rest]) none

theorem extendChain_ladder (branch : List Stmt) (first : Expr × List Stmt)
    (rest : List (Expr × List Stmt)) :
    extendChain branch (ladder none first rest) = some (ladder (some branch) first rest) := by
  induction rest generalizing first with
  | nil => rfl
  | cons next rest ih => simp [ladder, extendChain, ih]

/-- A last branch that is a single conditional is one more link. -/
theorem ladder_concat (test : Expr) (yes : List Stmt) (first : Expr × List Stmt)
    (rest : List (Expr × List Stmt)) :
    ladder (some [.cond test yes none none]) first rest =
      ladder none first (rest ++ [(test, yes)]) := by
  induction rest generalizing first with
  | nil => rfl
  | cons next rest ih => rw [ladder, ih, List.cons_append, ladder]

/-- A chain with a last branch is open if that branch is itself an open chain and nothing more. -/
theorem openChain_ladder {stmts : List Stmt} {first : Expr × List Stmt}
    {rest : List (Expr × List Stmt)} :
    (ladder (some stmts) first rest).OpenChain ↔ Stmt.AreOpenChain stmts := by
  induction rest generalizing first with
  | nil =>
    constructor
    · rintro (_ | ⟨_,_,_,h⟩)
      exact ⟨_,rfl,h⟩
    · rintro ⟨next,rfl,h⟩
      exact .link _ _ _ h
  | cons next rest ih =>
    rw [← @ih next]
    constructor
    · rintro (_ | ⟨_,_,_,h⟩)
      exact h
    · exact .link _ _ _

/-- Attaching a branch looks at the last statement only. -/
theorem attachElse_concat (sink : List Stmt) (a : Stmt) (outer : List (List Stmt))
    (branch : List Stmt) :
    attachElse ⟨(sink ++ [a]) :: outer⟩ branch =
      match extendChain branch a with
      | none => .error .noConditional
      | some b => .ok ⟨(sink ++ [b]) :: outer⟩ := by
  have hlast : last? ⟨(sink ++ [a]) :: outer⟩ = some a := List.getLast?_concat
  simp only [attachElse, hlast]
  cases extendChain branch a with
  | none => rfl
  | some b => simp [replaceLast, Except.map]

end Recorder

namespace Session

def records (s : Session) (body : List Operation) : Except Error (List Stmt) :=
  (s.enclosed (Operation.runAll body)).2

variable {s s' : Session} {body : List Operation}
  {use : Recorder → List Stmt → Except Error Recorder}

/-- An operation with a body ends as its body does, or else as the use of what that recorded. -/
theorem recorded_result :
    (s.recorded (Operation.runAll body) use).2 =
      ((s.records body).bind (use s.recorder)).map fun _ => () := by
  have hrecorder := enclosed_recorder (s := s) (Operation.extends_runAll body)
  rw [recorded, records]
  split
  next s' stmts he =>
    rw [he] at hrecorder
    rw [he, ← hrecorder]
    cases huse : use s'.recorder stmts <;> simp [update, Except.bind, Except.map, huse]
  next s' e he =>
    rw [he]
    rfl

theorem recorded_ok (h : s.recorded (Operation.runAll body) use = (s', .ok ())) :
    ∃ stmts, s.records body = .ok stmts ∧ use s.recorder stmts = .ok s'.recorder := by
  have hrecorder := enclosed_recorder (s := s) (Operation.extends_runAll body)
  rw [recorded] at h
  split at h
  next inner stmts he =>
    rw [he] at hrecorder
    refine ⟨stmts,by rw [records, he],?_⟩
    rw [← hrecorder]
    cases huse : use inner.recorder stmts with
    | error e =>
      rw [huse] at h
      cases h
    | ok r =>
      rw [huse] at h
      cases h
      rfl
  next => cases h

/-- The statement recorded last is a chain with a given last branch, or with none. -/
def EndsInLadder (s : Session) (no : Option (List Stmt)) : Prop :=
  ∃ sink outer first rest, s.recorder = ⟨(sink ++ [Recorder.ladder no first rest]) :: outer⟩

end Session

namespace Operation

open Recorder Session

variable {s s' : Session} {body : List Operation}

theorem endsInLadder_when {test : Expr} (h : (Operation.when test body).run s = (s', .ok ())) :
    s'.EndsInLadder none := by
  rw [run] at h
  obtain ⟨stmts,-,huse⟩ := recorded_ok h
  rcases hr : s.recorder with ⟨_ | ⟨sink,outer⟩⟩
  · rw [hr] at huse
    cases huse
  · rw [hr] at huse
    exact ⟨sink,outer,(test, stmts),[],(Except.ok.inj huse).symm⟩

/-- Attached to a chain without a last branch, a branch becomes the last one. -/
theorem endsInLadder_attachElse {branch : List Stmt} (hs : s.EndsInLadder none)
    (h : s.recorder.attachElse branch = .ok s'.recorder) : s'.EndsInLadder (some branch) := by
  obtain ⟨sink,outer,first,rest,hr⟩ := hs
  rw [hr, attachElse_concat, extendChain_ladder] at h
  exact ⟨sink,outer,first,rest,(Except.ok.inj h).symm⟩

theorem endsInLadder_otherwiseWhen {test : Expr} (hs : s.EndsInLadder none)
    (h : (Operation.otherwiseWhen test body).run s = (s', .ok ())) : s'.EndsInLadder none := by
  rw [run] at h
  obtain ⟨stmts,-,huse⟩ := recorded_ok h
  obtain ⟨sink,outer,first,rest,hr⟩ := endsInLadder_attachElse hs huse
  rw [ladder_concat] at hr
  exact ⟨sink,outer,first,_,hr⟩

theorem endsInLadder_links {links : List (Expr × List Operation)} (hs : s.EndsInLadder none)
    (h : runAll (links.map fun l => .otherwiseWhen l.1 l.2) s = (s', .ok ())) :
    s'.EndsInLadder none := by
  induction links generalizing s with
  | nil =>
    cases h
    exact hs
  | cons link links ih =>
    rw [List.map_cons, runAll] at h
    split at h
    next next he => exact ih (endsInLadder_otherwiseWhen hs he) h
    next => cases h

/-- To a chain with a last branch, another one can be attached only if that branch is itself an open
chain. -/
theorem attachElse_of_closed {stmts : List Stmt} (hs : s.EndsInLadder (some stmts))
    (branch : List Stmt) :
    (¬Stmt.AreOpenChain stmts → s.recorder.attachElse branch = .error .noConditional) ∧
      (Stmt.AreOpenChain stmts → ∃ r, s.recorder.attachElse branch = .ok r) := by
  obtain ⟨sink,outer,first,rest,hr⟩ := hs
  have hextend : (extendChain branch (ladder (some stmts) first rest)).isSome ↔
      Stmt.AreOpenChain stmts := isSome_extendChain.trans openChain_ladder
  rw [hr, attachElse_concat, ← hextend]
  cases extendChain branch (ladder (some stmts) first rest) with
  | none => exact ⟨fun _ => rfl,nofun⟩
  | some extended => exact ⟨fun h => absurd rfl h,fun _ => ⟨_,rfl⟩⟩

/-- Both operations with an else branch attach what comes of their body. -/
theorem else_result {further : Operation} {more : List Operation}
    (h : further = .otherwise more ∨ ∃ test, further = .otherwiseWhen test more) (s : Session) :
    ∃ branch : List Stmt → List Stmt, (further.run s).2 =
      ((s.records more).bind fun stmts => s.recorder.attachElse (branch stmts)).map fun _ => () := by
  rcases h with rfl | ⟨test,rfl⟩
  · refine ⟨id,?_⟩
    rw [run, recorded_result]
    rfl
  · refine ⟨fun stmts => [.cond test stmts none none],?_⟩
    rw [run, recorded_result]

/-- Where a conditional was followed by any number of further ones and then by a branch for all
other cases, one more branch is refused and nothing changes, but for one case: the branch for all
other cases is a single conditional, with a chain that is open. Then the new branch is attached to
that one. If the body of the new branch fails, so does the operation. -/
theorem else_after_otherwise {s s' s'' : Session} {test : Expr}
    {body otherwise more : List Operation} {links : List (Expr × List Operation)}
    {stmts : List Stmt} {further : Operation}
    (hchain : runAll (.when test body :: links.map fun l => .otherwiseWhen l.1 l.2) s =
      (s', .ok ()))
    (hstmts : s'.records otherwise = .ok stmts)
    (hotherwise : (Operation.otherwise otherwise).run s' = (s'', .ok ()))
    (hfurther : further = .otherwise more ∨ ∃ test, further = .otherwiseWhen test more) :
    (¬Stmt.AreOpenChain stmts →
      (further.run s'').2 = (s''.records more).bind (fun _ => .error .noConditional) ∧
        (further.run s'').1.recorder = s''.recorder) ∧
    (Stmt.AreOpenChain stmts → (further.run s'').2 = (s''.records more).map fun _ => ()) := by
  have hopen : s'.EndsInLadder none := by
    rw [runAll] at hchain
    split at hchain
    next first hwhen => exact endsInLadder_links (endsInLadder_when hwhen) hchain
    next => cases hchain
  have hclosed : s''.EndsInLadder (some stmts) := by
    rw [run] at hotherwise
    obtain ⟨found,hfound,huse⟩ := recorded_ok hotherwise
    rw [hstmts] at hfound
    cases hfound
    exact endsInLadder_attachElse hopen huse
  obtain ⟨branch,hresult⟩ := else_result hfurther s''
  have hunchanged {e : Error} (he : (further.run s'').2 = .error e) :
      (further.run s'').1.recorder = s''.recorder := (disciplined_run further s'').unchanged he
  cases hmore : s''.records more with
  | error e =>
    rw [hmore] at hresult
    exact ⟨fun _ => ⟨hresult,hunchanged hresult⟩,fun _ => hresult⟩
  | ok added =>
    rw [hmore, Except.bind] at hresult
    obtain ⟨hrefused,hattached⟩ := attachElse_of_closed hclosed (branch added)
    constructor
    · intro hnot
      rw [hrefused hnot] at hresult
      exact ⟨hresult,hunchanged hresult⟩
    · intro hnext
      obtain ⟨r,hr⟩ := hattached hnext
      rw [hr] at hresult
      exact hresult

def afterOtherwise (otherwise : List Operation) : Session × Except Error Unit :=
  runAll [.when (.var "a") [], .otherwiseWhen (.var "b") [], .otherwise otherwise]
    ⟨.push .empty, [], []⟩

theorem loop_in_else_ends_chain :
    (afterOtherwise [.repeatWhile (.var "c") []]).2 = .ok () ∧
      ((Operation.otherwise []).run (afterOtherwise [.repeatWhile (.var "c") []]).1).2 =
        .error .noConditional := by
  have h := @else_after_otherwise ⟨.push .empty, [], []⟩ _ _ (.var "a") []
    [.repeatWhile (.var "c") []] [] [(.var "b", [])] _ (.otherwise []) rfl rfl rfl (.inl rfl)
  refine ⟨rfl,(h.1 ?_).1⟩
  rintro ⟨_,⟨⟩,⟨⟩⟩

/-- After a single conditional in the branch for all other cases, another such branch is let
through. -/
theorem conditional_in_else_is_extended :
    (afterOtherwise [.when (.var "c") []]).2 = .ok () ∧
      ¬(((Operation.otherwise []).run (afterOtherwise [.when (.var "c") []]).1).2 =
          .error .noConditional ∧
        ((Operation.otherwise []).run (afterOtherwise [.when (.var "c") []]).1).1.recorder =
          (afterOtherwise [.when (.var "c") []]).1.recorder) :=
  ⟨rfl,nofun⟩

end Operation

end Cartridge
