import Cartridge.Proofs.Recorder.Chain

/-!
What a body records depends on the logic blocks alone. Operations read and write nothing but the innermost
list, and inside a body that list is its own.
-/
namespace Cartridge

namespace Recorder

/-- Only the innermost list is read and written, and never closed. -/
def Local (use : Recorder → Except Error Recorder) : Prop :=
  ∀ sink outer, use ⟨sink :: outer⟩ = (use ⟨[sink]⟩).map fun r => ⟨r.top :: outer⟩

theorem local_emit (a : Stmt) : Local fun r => r.emit a := fun _ _ => rfl

theorem local_attachElse (branch : List Stmt) : Local fun r => r.attachElse branch := by
  intro sink outer
  rcases List.eq_nil_or_concat sink with rfl | ⟨before,last,rfl⟩
  · rfl
  · simp only [List.concat_eq_append, attachElse_concat]
    cases extendChain branch last with
    | none => rfl
    | some extended => rfl

theorem local_expand (b : LogicBlock) (args : List Expr) : Local fun r => r.expand b args := by
  intro sink outer
  have hexpand (outer : List (List Stmt)) :
      expand ⟨sink :: outer⟩ b args = (b.expand args).map fun stmts => ⟨(sink ++ stmts) :: outer⟩ := by
    have hrecording : isRecording ⟨sink :: outer⟩ = true := rfl
    rw [expand, if_pos hrecording]
    cases b.expand args with
    | error e => rfl
    | ok stmts => exact emitAll_cons sink outer stmts
  simp only [hexpand]
  cases b.expand args with
  | error e => rfl
  | ok stmts => rfl

end Recorder

namespace Session

/-- The same logic blocks, and the same statements in the innermost list. -/
def Similar (s t : Session) : Prop :=
  s.blocks = t.blocks ∧
    ∃ sink outer outer', s.recorder = ⟨sink :: outer⟩ ∧ t.recorder = ⟨sink :: outer'⟩

def Agree (p q : Session × Except Error Unit) : Prop := p.1.Similar q.1 ∧ p.2 = q.2

variable {s t : Session}

theorem similar_push (h : s.blocks = t.blocks) :
    Similar { s with recorder := s.recorder.push } { t with recorder := t.recorder.push } :=
  ⟨h,[],_,_,rfl,rfl⟩

theorem Similar.note (h : s.Similar t) (e e' : Event) : (s.note e).Similar (t.note e') := h

theorem Similar.top (h : s.Similar t) : s.recorder.top = t.recorder.top := by
  obtain ⟨-,sink,outer,outer',hs,ht⟩ := h
  rw [hs, ht]
  rfl

theorem Similar.update (h : s.Similar t) {use : Recorder → Except Error Recorder}
    (huse : Recorder.Local use) : Agree (s.update (use s.recorder)) (t.update (use t.recorder)) := by
  obtain ⟨hblocks,sink,outer,outer',hs,ht⟩ := h
  rw [hs, ht, huse sink outer, huse sink outer']
  cases use ⟨[sink]⟩ with
  | error e => exact ⟨⟨hblocks,sink,outer,outer',hs,ht⟩,rfl⟩
  | ok r => exact ⟨⟨hblocks,r.top,outer,outer',rfl,rfl⟩,rfl⟩

variable {body : Session → Session × Except Error Unit}

/-- A body that does the same in similar sessions records the same wherever the logic blocks are the
same. -/
theorem enclosed_congr (hbody : ∀ s t, Similar s t → Agree (body s) (body t))
    (h : s.blocks = t.blocks) :
    (s.enclosed body).1.blocks = (t.enclosed body).1.blocks ∧
      (s.enclosed body).2 = (t.enclosed body).2 := by
  obtain ⟨hsimilar,houtcome⟩ := hbody _ _ (similar_push h)
  refine ⟨hsimilar.1,?_⟩
  simp only [enclosed]
  rw [houtcome, hsimilar.top]

theorem Similar.enclosed (h : s.Similar t) (hbody : ∀ s t, Similar s t → Agree (body s) (body t))
    (hextends : ∀ s : Session, s.recorder.Extends (body s).1.recorder) :
    (s.enclosed body).1.Similar (t.enclosed body).1 ∧ (s.enclosed body).2 = (t.enclosed body).2 := by
  obtain ⟨hblocks,hresult⟩ := enclosed_congr hbody h.1
  rw [Similar, enclosed_recorder hextends, enclosed_recorder hextends]
  exact ⟨⟨hblocks,h.2⟩,hresult⟩

theorem Similar.recorded (h : s.Similar t) (hbody : ∀ s t, Similar s t → Agree (body s) (body t))
    (hextends : ∀ s : Session, s.recorder.Extends (body s).1.recorder)
    {use : Recorder → List Stmt → Except Error Recorder}
    (huse : ∀ stmts, Recorder.Local fun r => use r stmts) :
    Agree (s.recorded body use) (t.recorded body use) := by
  obtain ⟨hsimilar,hresult⟩ := h.enclosed hbody hextends
  rw [Session.recorded, Session.recorded]
  rcases hs : s.enclosed body with ⟨s',result⟩
  rcases ht : t.enclosed body with ⟨t',result'⟩
  rw [hs, ht] at hsimilar hresult
  obtain rfl : result = result' := hresult
  cases result with
  | error e => exact ⟨hsimilar,rfl⟩
  | ok stmts => exact hsimilar.update (huse stmts)

end Session

namespace Operation

open Session

mutual

theorem agree_run : ∀ (o : Operation) (s t : Session), s.Similar t → Agree (o.run s) (o.run t)
  | .emit a, s, t, h => by
    rw [run, run]
    exact h.update (Recorder.local_emit a)
  | .replaceLast a, s, t, h => by
    obtain ⟨hblocks,sink,outer,outer',hs,ht⟩ := h
    have hsimilar : s.Similar t := ⟨hblocks,sink,outer,outer',hs,ht⟩
    rw [run, run, hs, ht]
    cases hlast : sink.getLast? with
    | none =>
      simp only [Recorder.replaceLast, hlast]
      exact ⟨hsimilar,rfl⟩
    | some old =>
      simp only [Recorder.replaceLast, hlast]
      exact ⟨⟨hblocks,_,outer,outer',rfl,rfl⟩,rfl⟩
  | .when test body, s, t, h => by
    rw [run, run]
    exact h.recorded (agree_runAll body) (extends_runAll body) fun _ => Recorder.local_emit _
  | .otherwise body, s, t, h => by
    rw [run, run]
    exact h.recorded (agree_runAll body) (extends_runAll body) Recorder.local_attachElse
  | .otherwiseWhen test body, s, t, h => by
    rw [run, run]
    exact h.recorded (agree_runAll body) (extends_runAll body) fun _ => Recorder.local_attachElse _
  | .repeatWhile test body, s, t, h => by
    rw [run, run]
    exact h.recorded (agree_runAll body) (extends_runAll body) fun _ => Recorder.local_emit _
  | .forRange counter first last body, s, t, h => by
    rw [run, run]
    exact h.recorded (agree_runAll body) (extends_runAll body) fun _ => Recorder.local_emit _
  | .expand block args, s, t, h => by
    have hblock : s.block? block = t.block? block := by rw [block?, block?, h.1]
    rw [run, run, hblock]
    cases t.block? block with
    | none => exact ⟨h,rfl⟩
    | some b => exact h.update (Recorder.local_expand b args)
  | .record body, s, t, h => by
    obtain ⟨hsimilar,hresult⟩ := h.enclosed (agree_runAll body) (extends_runAll body)
    rw [run, run]
    rcases hs : s.enclosed (runAll body) with ⟨s',result⟩
    rcases ht : t.enclosed (runAll body) with ⟨t',result'⟩
    rw [hs, ht] at hsimilar hresult
    obtain rfl : result = result' := hresult
    cases result with
    | error e => exact ⟨hsimilar,rfl⟩
    | ok stmts => exact ⟨hsimilar.note _ _,rfl⟩
  | .attempt body, s, t, h => by
    rw [run, run]
    exact ⟨(agree_runAll body s t h).1.note _ _,rfl⟩
  | .fail text, s, t, h => ⟨h,rfl⟩
  | .askLast, s, t, h => ⟨h,rfl⟩
  | .askDepth, s, t, h => ⟨h,rfl⟩

theorem agree_runAll : ∀ (os : List Operation) (s t : Session), s.Similar t →
    Agree (runAll os s) (runAll os t)
  | [], s, t, h => ⟨h,rfl⟩
  | o :: os, s, t, h => by
    have hfirst := agree_run o s t h
    rw [runAll, runAll]
    rcases hs : o.run s with ⟨s',outcome⟩
    rcases ht : o.run t with ⟨t',outcome'⟩
    rw [hs, ht] at hfirst
    obtain ⟨hsimilar,rfl⟩ := hfirst
    cases outcome with
    | error e => exact ⟨hsimilar,rfl⟩
    | ok u => exact agree_runAll os s' t' hsimilar

end

end Operation

namespace Session

variable {s t : Session}

/-- What a body records depends on the logic blocks alone. -/
theorem records_congr (h : s.blocks = t.blocks) (body : List Operation) :
    s.records body = t.records body := (enclosed_congr (Operation.agree_runAll body) h).2

theorem blocks_update (s : Session) (r : Except Error Recorder) : (s.update r).1.blocks = s.blocks := by
  cases r <;> rfl

theorem blocks_recorded {body : Session → Session × Except Error Unit}
    {use : Recorder → List Stmt → Except Error Recorder}
    (hbody : ∀ s : Session, (body s).1.blocks = s.blocks) (s : Session) :
    (s.recorded body use).1.blocks = s.blocks := by
  have henclosed : (s.enclosed body).1.blocks = s.blocks := hbody _
  rw [recorded]
  split
  next he =>
    rw [he] at henclosed
    exact (blocks_update _ _).trans henclosed
  next he =>
    rw [he] at henclosed
    exact henclosed

end Session

namespace Operation

open Session

mutual

theorem blocks_run : ∀ (o : Operation) (s : Session), (o.run s).1.blocks = s.blocks
  | .emit a, s => by
    rw [run]
    exact blocks_update _ _
  | .replaceLast a, s => by
    rw [run]
    split <;> rfl
  | .when test body, s => by
    rw [run]
    exact blocks_recorded (blocks_runAll body) s
  | .otherwise body, s => by
    rw [run]
    exact blocks_recorded (blocks_runAll body) s
  | .otherwiseWhen test body, s => by
    rw [run]
    exact blocks_recorded (blocks_runAll body) s
  | .repeatWhile test body, s => by
    rw [run]
    exact blocks_recorded (blocks_runAll body) s
  | .forRange counter first last body, s => by
    rw [run]
    exact blocks_recorded (blocks_runAll body) s
  | .expand block args, s => by
    rw [run]
    split
    next => exact blocks_update _ _
    next => rfl
  | .record body, s => by
    have henclosed : (s.enclosed (runAll body)).1.blocks = s.blocks := blocks_runAll body _
    rw [run]
    split
    next he =>
      rw [he] at henclosed
      exact henclosed
    next he =>
      rw [he] at henclosed
      exact henclosed
  | .attempt body, s => by
    rw [run]
    exact blocks_runAll body s
  | .fail text, s => rfl
  | .askLast, s => rfl
  | .askDepth, s => rfl

/-- Operations add no logic blocks. -/
theorem blocks_runAll : ∀ (os : List Operation) (s : Session), (runAll os s).1.blocks = s.blocks
  | [], s => rfl
  | o :: os, s => by
    have hfirst := blocks_run o s
    rw [runAll]
    split
    next he =>
      rw [he] at hfirst
      exact (blocks_runAll os _).trans hfirst
    next he =>
      rw [he] at hfirst
      exact hfirst

end

end Operation

end Cartridge
