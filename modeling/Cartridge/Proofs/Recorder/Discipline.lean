import Mathlib.Tactic.Common
import Cartridge.Recorder.Script

/-!
The discipline of open lists. An operation that fails leaves them as they were; one that succeeds
leaves as many of them, and changes at most the end of the innermost one.
-/
namespace Cartridge

namespace Recorder

/-- The innermost list may have grown and its last statement may be another one. All else is as it
was. -/
structure Extends (r r' : Recorder) : Prop where
  depth : r'.depth = r.depth
  outer : r'.pop = r.pop
  grown : r.top.length ≤ r'.top.length
  kept : r.top.dropLast <+: r'.top

namespace Extends

theorem refl (r : Recorder) : r.Extends r := ⟨rfl,rfl,Nat.le_refl _,List.dropLast_prefix _⟩

theorem trans {r r' r'' : Recorder} (h : r.Extends r') (h' : r'.Extends r'') : r.Extends r'' where
  depth := h'.depth.trans h.depth
  outer := h'.outer.trans h.outer
  grown := Nat.le_trans h.grown h'.grown
  kept := by
    have hshort : r.top.dropLast.length ≤ r'.top.dropLast.length := by
      have hgrown := h.grown
      rw [List.length_dropLast, List.length_dropLast]
      omega
    have hbefore : r.top.dropLast <+: r'.top.dropLast :=
      List.prefix_of_prefix_length_le h.kept (List.dropLast_prefix _) hshort
    exact hbefore.trans h'.kept

/-- Whatever replaces the last statement, and whatever follows, is at the end of the list. -/
theorem of_cons {sink sink' : List Stmt} {outer : List (List Stmt)}
    (hgrown : sink.length ≤ sink'.length) (hkept : sink.dropLast <+: sink') :
    Extends ⟨sink :: outer⟩ ⟨sink' :: outer⟩ := ⟨rfl,rfl,hgrown,hkept⟩

end Extends

theorem extends_emit {r r' : Recorder} {a : Stmt} (h : r.emit a = .ok r') : r.Extends r' := by
  obtain ⟨_ | ⟨sink,outer⟩⟩ := r
  · cases h
  · cases h
    refine .of_cons (by simp) ?_
    exact (List.dropLast_prefix sink).trans (List.prefix_append sink [a])

theorem extends_replaceLast {r r' : Recorder} {a old : Stmt}
    (h : r.replaceLast a = .ok (r', old)) : r.Extends r' := by
  obtain ⟨_ | ⟨sink,outer⟩⟩ := r
  · cases h
  · dsimp only [replaceLast] at h
    split at h
    · cases h
    next hlast =>
      cases h
      have hpos : 0 < sink.length := List.length_pos_of_mem (List.mem_of_getLast? hlast)
      refine .of_cons ?_ (List.prefix_append _ _)
      rw [List.length_append, List.length_dropLast, List.length_singleton]
      omega

theorem extends_attachElse {r r' : Recorder} {branch : List Stmt}
    (h : r.attachElse branch = .ok r') : r.Extends r' := by
  rw [attachElse] at h
  split at h
  · cases h
  next =>
    split at h
    · cases h
    next extended _ =>
      cases hreplace : r.replaceLast extended with
      | error e =>
        rw [hreplace] at h
        cases h
      | ok replaced =>
        rw [hreplace] at h
        cases h
        exact extends_replaceLast hreplace

/-- Where a list is open, nothing can go wrong between the first statement and the last. -/
theorem emitAll_cons (sink : List Stmt) (outer : List (List Stmt)) (stmts : List Stmt) :
    emitAll ⟨sink :: outer⟩ stmts = .ok ⟨(sink ++ stmts) :: outer⟩ := by
  induction stmts generalizing sink with
  | nil =>
    rw [List.append_nil]
    rfl
  | cons a stmts ih =>
    have hnext := ih (sink ++ [a])
    rw [List.append_assoc] at hnext
    exact hnext

theorem extends_expand {r r' : Recorder} {b : LogicBlock} {args : List Expr}
    (h : r.expand b args = .ok r') : r.Extends r' := by
  obtain ⟨_ | ⟨sink,outer⟩⟩ := r
  · cases h
  · have hrecording : isRecording ⟨sink :: outer⟩ = true := rfl
    rw [expand, if_pos hrecording] at h
    cases hbody : b.expand args with
    | error e =>
      rw [hbody] at h
      cases h
    | ok stmts =>
      rw [hbody, Except.bind, emitAll_cons] at h
      cases h
      refine .of_cons (by simp) ?_
      exact (List.dropLast_prefix sink).trans (List.prefix_append sink stmts)

end Recorder

namespace Session

/-- What running an operation may leave of the open lists. -/
inductive Disciplined (s : Session) : Session × Except Error Unit → Prop
  | done (s' : Session) (h : s.recorder.Extends s'.recorder) : Disciplined s (s', .ok ())
  | failed (s' : Session) (e : Error) (h : s'.recorder = s.recorder) : Disciplined s (s', .error e)

theorem Disciplined.extends {s : Session} {result : Session × Except Error Unit}
    (h : s.Disciplined result) : s.recorder.Extends result.1.recorder := by
  cases h with
  | done s' h => exact h
  | failed s' e h =>
    rw [h]
    exact .refl _

theorem Disciplined.unchanged {s : Session} {result : Session × Except Error Unit} {e : Error}
    (h : s.Disciplined result) (he : result.2 = .error e) : result.1.recorder = s.recorder := by
  cases h with
  | done s' h => cases he
  | failed s' e h => exact h

theorem disciplined_update {s s' : Session} {r : Except Error Recorder}
    (hs : s'.recorder = s.recorder) (h : ∀ r', r = .ok r' → s.recorder.Extends r') :
    s.Disciplined (s'.update r) := by
  cases r with
  | ok r' => exact .done _ (h r' rfl)
  | error e => exact .failed _ e hs

/-- A body that only adds to its own list is gone when that list is closed. -/
theorem enclosed_recorder {s : Session} {body : Session → Session × Except Error Unit}
    (h : ∀ s : Session, s.recorder.Extends (body s).1.recorder) :
    (s.enclosed body).1.recorder = s.recorder :=
  (h { s with recorder := s.recorder.push }).outer

theorem disciplined_recorded {s : Session} {body : Session → Session × Except Error Unit}
    {use : Recorder → List Stmt → Except Error Recorder}
    (h : ∀ s : Session, s.recorder.Extends (body s).1.recorder)
    (huse : ∀ r stmts r', use r stmts = .ok r' → r.Extends r') :
    s.Disciplined (s.recorded body use) := by
  have hrecorder := enclosed_recorder (s := s) h
  rw [recorded]
  split
  next s' stmts he =>
    rw [he] at hrecorder
    exact disciplined_update hrecorder fun r' hr => huse _ stmts r' (hrecorder ▸ hr)
  next s' e he =>
    rw [he] at hrecorder
    exact .failed s' e hrecorder

end Session

namespace Operation

mutual

theorem disciplined_run : ∀ (o : Operation) (s : Session), s.Disciplined (o.run s)
  | .emit a, s => by
    rw [run]
    exact Session.disciplined_update rfl fun _ => Recorder.extends_emit
  | .replaceLast a, s => by
    rw [run]
    split
    next hreplace => exact .done _ (Recorder.extends_replaceLast hreplace)
    next e _ => exact .failed s e rfl
  | .when test body, s => by
    rw [run]
    exact Session.disciplined_recorded (extends_runAll body) fun _ _ _ => Recorder.extends_emit
  | .otherwise body, s => by
    rw [run]
    exact Session.disciplined_recorded (extends_runAll body) fun _ _ _ =>
      Recorder.extends_attachElse
  | .otherwiseWhen test body, s => by
    rw [run]
    exact Session.disciplined_recorded (extends_runAll body) fun _ _ _ =>
      Recorder.extends_attachElse
  | .repeatWhile test body, s => by
    rw [run]
    exact Session.disciplined_recorded (extends_runAll body) fun _ _ _ => Recorder.extends_emit
  | .forRange counter first last body, s => by
    rw [run]
    exact Session.disciplined_recorded (extends_runAll body) fun _ _ _ => Recorder.extends_emit
  | .expand block args, s => by
    rw [run]
    split
    next => exact Session.disciplined_update rfl fun _ => Recorder.extends_expand
    next => exact .failed s _ rfl
  | .record body, s => by
    have hrecorder := Session.enclosed_recorder (s := s) (extends_runAll body)
    rw [run]
    split
    next s' stmts he =>
      rw [he] at hrecorder
      exact .done _ (hrecorder ▸ .refl s.recorder)
    next s' e he =>
      rw [he] at hrecorder
      exact .failed s' e hrecorder
  | .attempt body, s => by
    rw [run]
    exact .done _ (extends_runAll body s)
  | .fail text, s => .failed s _ rfl
  | .askLast, s => .done _ (.refl s.recorder)
  | .askDepth, s => .done _ (.refl s.recorder)

/-- Operations in a row keep to the innermost list, wherever they stop. -/
theorem extends_runAll :
    ∀ (os : List Operation) (s : Session), s.recorder.Extends (runAll os s).1.recorder
  | [], s => .refl s.recorder
  | o :: os, s => by
    have hfirst := (disciplined_run o s).extends
    rw [runAll]
    split
    next s' he =>
      rw [he] at hfirst
      exact hfirst.trans (extends_runAll os s')
    next s' e he =>
      rw [he] at hfirst
      exact hfirst

end

/-- An operation that fails leaves every open list as it was. One that succeeds leaves as many
lists, the same but for the innermost, and in that the same statements but for the last. -/
theorem operation_keeps_open_lists (o : Operation) (s : Session) :
    match o.run s with
    | (s', .error _) => s'.recorder.sinks = s.recorder.sinks
    | (s', .ok ()) =>
      s'.recorder.depth = s.recorder.depth ∧ s'.recorder.sinks.tail = s.recorder.sinks.tail ∧
        s.recorder.top.length ≤ s'.recorder.top.length ∧
        s.recorder.top.dropLast <+: s'.recorder.top := by
  have h := disciplined_run o s
  generalize o.run s = result at h ⊢
  cases h with
  | done s' h => exact ⟨h.depth,congrArg Recorder.sinks h.outer,h.grown,h.kept⟩
  | failed s' e h => exact congrArg Recorder.sinks h

end Operation

end Cartridge
