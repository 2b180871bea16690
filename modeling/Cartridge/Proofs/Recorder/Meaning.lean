import Cartridge.Proofs.Recorder.Local
import Cartridge.Proofs.Stmt.Step

/-!
What recorded chains mean. A chain is one statement, and that tests the conditions in the order in which
they were recorded, up to the first that is true, and goes on with what was recorded under it.
-/
namespace Cartridge

namespace Recorder

open Stmt

/-- A ladder comes to what stands under the first condition that is true, or else to its last branch. -/
theorem reaches_ladder {σ : Type} (w : World σ) (no : Option (List Stmt)) (first : Expr × List Stmt)
    (rest : List (Expr × List Stmt)) (after : List Stmt) (t : σ) :
    w.Reaches (ladder no first rest :: after,t)
      ((w.firstTrue (first :: rest) t).1.getD (no.getD []) ++ after,(w.firstTrue (first :: rest) t).2) := by
  induction rest generalizing first t with
  | nil =>
    have hstep := World.reaches_cond (w := w) first.1 first.2 no none after t
    rw [ladder, World.firstTrue]
    rcases htest : w.test first.1 t with ⟨_ | _,t'⟩
    all_goals
      rw [htest] at hstep
      exact hstep
  | cons next rest ih =>
    have hstep := World.reaches_cond (w := w) first.1 first.2 (some [ladder no next rest]) none after t
    rw [ladder, World.firstTrue]
    rcases htest : w.test first.1 t with ⟨_ | _,t'⟩
    all_goals rw [htest] at hstep
    · exact hstep.trans (ih next t')
    · exact hstep

end Recorder

/-- Operations that end without an error go on with those behind them. -/
theorem Operation.runAll_append {os : List Operation} {s s' : Session} (h : runAll os s = (s', .ok ()))
    (os' : List Operation) : runAll (os ++ os') s = runAll os' s' := by
  induction os generalizing s with
  | nil =>
    cases h
    rfl
  | cons o os ih =>
    rw [List.cons_append, runAll]
    rw [runAll] at h
    split at h
    next => exact ih h
    next => cases h

namespace Session

variable {s : Session}

/-- Running operations ends with this recorder and without an error, and adds no logic block. -/
def Becomes (s : Session) (os : List Operation) (r : Recorder) : Prop :=
  ∃ s', Operation.runAll os s = (s', .ok ()) ∧ s'.recorder = r ∧ s'.blocks = s.blocks

def RecordsArm (s : Session) (link : Expr × List Operation) (arm : Expr × List Stmt) : Prop :=
  link.1 = arm.1 ∧ s.records link.2 = .ok arm.2

theorem recordsArm_congr {s' : Session} (h : s'.blocks = s.blocks) : s'.RecordsArm = s.RecordsArm := by
  funext link arm
  rw [RecordsArm, RecordsArm, records_congr h]

theorem becomes_nil (s : Session) : s.Becomes [] s.recorder := ⟨s,rfl,rfl,rfl⟩

theorem Becomes.append {os os' : List Operation} {r r' : Recorder} (h : s.Becomes os r)
    (hrest : ∀ s' : Session, s'.recorder = r → s'.blocks = s.blocks → s'.Becomes os' r') :
    s.Becomes (os ++ os') r' := by
  obtain ⟨s',hrun,hr,hblocks⟩ := h
  obtain ⟨s'',hrest,hr',hblocks'⟩ := hrest s' hr hblocks
  exact ⟨s'',(Operation.runAll_append hrun os').trans hrest,hr',hblocks'.trans hblocks⟩

/-- An operation with a body does with the open lists what it does with the recorded statements. -/
theorem becomes_recorded {o : Operation} {body : List Operation}
    {use : Recorder → List Stmt → Except Error Recorder} {stmts : List Stmt} {r : Recorder}
    (hrun : o.run s = s.recorded (Operation.runAll body) use) (hstmts : s.records body = .ok stmts)
    (huse : use s.recorder stmts = .ok r) : s.Becomes [o] r := by
  have hresult : (o.run s).2 = .ok () := by
    rw [hrun, recorded_result, hstmts, Except.bind, huse]
    rfl
  have hblocks := Operation.blocks_run o s
  rcases he : o.run s with ⟨s',outcome⟩
  rw [he] at hresult hblocks
  obtain rfl : outcome = .ok () := hresult
  obtain ⟨stmts',hstmts',huse'⟩ := recorded_ok (hrun.symm.trans he)
  obtain rfl : stmts = stmts' := Except.ok.inj (hstmts.symm.trans hstmts')
  refine ⟨s',?_,Except.ok.inj (huse'.symm.trans huse),hblocks⟩
  simp only [Operation.runAll, he]

end Session

namespace Operation

open Recorder Session

variable {s : Session} {sink : List Stmt} {outer : List (List Stmt)} {first : Expr × List Stmt}
  {rest : List (Expr × List Stmt)}

theorem becomes_when {link : Expr × List Operation} {arm : Expr × List Stmt}
    (hs : s.recorder = ⟨sink :: outer⟩) (harm : s.RecordsArm link arm) :
    s.Becomes [.when link.1 link.2] ⟨(sink ++ [ladder none arm []]) :: outer⟩ := by
  refine becomes_recorded (by rw [run]) harm.2 ?_
  rw [hs, harm.1]
  rfl

theorem becomes_link {link : Expr × List Operation} {arm : Expr × List Stmt}
    (hs : s.recorder = ⟨(sink ++ [ladder none first rest]) :: outer⟩) (harm : s.RecordsArm link arm) :
    s.Becomes [.otherwiseWhen link.1 link.2]
      ⟨(sink ++ [ladder none first (rest ++ [arm])]) :: outer⟩ := by
  refine becomes_recorded (by rw [run]) harm.2 ?_
  rw [hs, attachElse_concat, extendChain_ladder, ladder_concat, harm.1]

theorem becomes_links {links : List (Expr × List Operation)} {arms : List (Expr × List Stmt)}
    (harms : List.Forall₂ s.RecordsArm links arms)
    (hs : s.recorder = ⟨(sink ++ [ladder none first rest]) :: outer⟩) :
    s.Becomes (links.map fun l => .otherwiseWhen l.1 l.2)
      ⟨(sink ++ [ladder none first (rest ++ arms)]) :: outer⟩ := by
  induction links generalizing s rest arms with
  | nil =>
    cases harms
    rw [List.append_nil, ← hs]
    exact becomes_nil s
  | cons link links ih =>
    obtain ⟨arm,arms,harm,hrest,rfl⟩ := List.forall₂_cons_left_iff.mp harms
    refine (becomes_link hs harm).append fun s' hr hblocks => ?_
    rw [← recordsArm_congr hblocks] at hrest
    have hlinks := ih hrest hr
    rwa [List.append_assoc] at hlinks

theorem becomes_otherwise {body : List Operation} {stmts : List Stmt}
    (hs : s.recorder = ⟨(sink ++ [ladder none first rest]) :: outer⟩)
    (hstmts : s.records body = .ok stmts) :
    s.Becomes [.otherwise body] ⟨(sink ++ [ladder (some stmts) first rest]) :: outer⟩ := by
  refine becomes_recorded (by rw [run]) hstmts ?_
  rw [hs, attachElse_concat, extendChain_ladder]

def chain (first : Expr × List Operation) (links : List (Expr × List Operation))
    (last : Option (List Operation)) : List Operation :=
  .when first.1 first.2 :: links.map (fun l => .otherwiseWhen l.1 l.2) ++ last.toList.map .otherwise

/-- A chain records a ladder. -/
theorem becomes_chain {link : Expr × List Operation} {links : List (Expr × List Operation)}
    {last : Option (List Operation)} {arms : List (Expr × List Stmt)} {no : Option (List Stmt)}
    (hs : s.recorder = ⟨sink :: outer⟩) (hfirst : s.RecordsArm link first)
    (harms : List.Forall₂ s.RecordsArm links arms)
    (hno : Option.Rel (fun body stmts => s.records body = .ok stmts) last no) :
    s.Becomes (chain link links last) ⟨(sink ++ [ladder no first arms]) :: outer⟩ := by
  have hconds : s.Becomes (.when link.1 link.2 :: links.map fun l => .otherwiseWhen l.1 l.2)
      ⟨(sink ++ [ladder none first arms]) :: outer⟩ := by
    refine (becomes_when hs hfirst).append fun s' hr hblocks => ?_
    rw [← recordsArm_congr hblocks] at harms
    exact becomes_links harms hr
  refine hconds.append fun s' hr hblocks => ?_
  cases hno with
  | none =>
    rw [← hr]
    exact becomes_nil s'
  | some hstmts => exact becomes_otherwise hr ((records_congr hblocks _).trans hstmts)

/-- A recorded chain is one statement. Executed, it tests the conditions in order up to the first that is
true, and then what was recorded under that is executed, or what was recorded for all other cases. -/
theorem chain_means_first_true {link : Expr × List Operation} {links : List (Expr × List Operation)}
    {last : Option (List Operation)} {arms : List (Expr × List Stmt)} {no : Option (List Stmt)}
    (hs : s.recorder = ⟨sink :: outer⟩) (harms : List.Forall₂ s.RecordsArm (link :: links) arms)
    (hno : Option.Rel (fun body stmts => s.records body = .ok stmts) last no) :
    ∃ s' a, runAll (chain link links last) s = (s', .ok ()) ∧
      s'.recorder = ⟨(sink ++ [a]) :: outer⟩ ∧
      ∀ (σ : Type) (w : Stmt.World σ) (t : σ) (after : List Stmt),
        w.Reaches (a :: after,t)
          ((w.firstTrue arms t).1.getD (no.getD []) ++ after,(w.firstTrue arms t).2) := by
  obtain ⟨first,rest,hfirst,hrest,rfl⟩ := List.forall₂_cons_left_iff.mp harms
  obtain ⟨s',hrun,hr,-⟩ := becomes_chain hs hfirst hrest hno
  exact ⟨s',_,hrun,hr,fun _ w t after => reaches_ladder w no first rest after t⟩

/-- Three branches behind another statement, the second of them a conditional of its own. -/
theorem lamp_chain_means_first_true :
    let s : Session := ⟨⟨[[.raw "tick();" none]]⟩, [], []⟩
    let link : Expr × List Operation := (.var "lit", [.emit (.raw "glow();" none)])
    let links : List (Expr × List Operation) := [(.var "near", [.when (.var "far") []])]
    let last : Option (List Operation) := some [.emit (.raw "hide();" none)]
    let arms : List (Expr × List Stmt) :=
      [(.var "lit", [.raw "glow();" none]),(.var "near", [.cond (.var "far") [] none none])]
    let no : Option (List Stmt) := some [.raw "hide();" none]
    s.recorder = ⟨[[.raw "tick();" none]]⟩ ∧ List.Forall₂ s.RecordsArm (link :: links) arms ∧
      Option.Rel (fun body stmts => s.records body = .ok stmts) last no ∧
      ∃ s' a, runAll (chain link links last) s = (s', .ok ()) ∧
        s'.recorder = ⟨[[.raw "tick();" none,a]]⟩ ∧
        ∀ (σ : Type) (w : Stmt.World σ) (t : σ) (after : List Stmt),
          w.Reaches (a :: after,t)
            ((w.firstTrue arms t).1.getD (no.getD []) ++ after,(w.firstTrue arms t).2) := by
  intro s link links last arms no
  have harms : List.Forall₂ s.RecordsArm (link :: links) arms :=
    .cons ⟨rfl,rfl⟩ (.cons ⟨rfl,rfl⟩ .nil)
  have hno : Option.Rel (fun body stmts => s.records body = .ok stmts) last no := .some rfl
  exact ⟨rfl,harms,hno,chain_means_first_true rfl harms hno⟩

end Operation

end Cartridge
