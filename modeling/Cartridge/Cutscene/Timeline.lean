import Cartridge.Stmt.Json

/-! Scripted sequences and the frames at which their cues fall. -/
namespace Cartridge.Cutscene

/-- A screen effect. -/
inductive Effect where
  | fadeOut
  | fadeIn
  | flash
  deriving DecidableEq, Repr

namespace Effect

def all : List Effect := [.fadeOut, .fadeIn, .flash]

def name : Effect → String
  | .fadeOut => "fade_out"
  | .fadeIn => "fade_in"
  | .flash => "flash"

def ofJson? : Nat → Json → Option Effect := Json.oneOf? all name

end Effect

inductive Step where
  | wait (frames : UInt16)
  /-- Statements run once, in no time. -/
  | run (stmts : List Stmt)
  /-- Branches that start together; the group lasts as long as the longest. -/
  | parallel (branches : List (List Step))
  | transition (effect : Effect) (frames : UInt8)

namespace Step

mutual

def duration : Step → Nat
  | .wait frames => frames.toNat
  | .run _ => 0
  | .parallel branches => longest branches
  | .transition _ frames => frames.toNat

def total : List Step → Nat
  | [] => 0
  | s :: rest => duration s + total rest

def longest : List (List Step) → Nat
  | [] => 0
  | b :: rest => max (total b) (longest rest)

end

mutual

def same : Step → Step → Bool
  | .wait a, .wait b => a = b
  | .run a, .run b => a = b
  | .parallel a, .parallel b => sameBranches a b
  | .transition e a, .transition f b => e = f && a = b
  | _, _ => false

def sameAll : List Step → List Step → Bool
  | [], [] => true
  | a :: as, b :: bs => same a b && sameAll as bs
  | _, _ => false

def sameBranches : List (List Step) → List (List Step) → Bool
  | [], [] => true
  | a :: as, b :: bs => sameAll a b && sameBranches as bs
  | _, _ => false

end

mutual

theorem same_iff : ∀ a b : Step, same a b = true ↔ a = b
  | .wait _, b => by cases b <;> simp [same]
  | .run _, b => by cases b <;> simp [same]
  | .parallel as, b => by cases b <;> simp [same, sameBranches_iff as]
  | .transition .., b => by cases b <;> simp [same]

theorem sameAll_iff : ∀ as bs : List Step, sameAll as bs = true ↔ as = bs
  | [], bs => by cases bs <;> simp [sameAll]
  | a :: as, bs => by cases bs <;> simp [sameAll, same_iff a, sameAll_iff as]

theorem sameBranches_iff : ∀ as bs : List (List Step), sameBranches as bs = true ↔ as = bs
  | [], bs => by cases bs <;> simp [sameBranches]
  | a :: as, bs => by cases bs <;> simp [sameBranches, sameAll_iff a, sameBranches_iff as]

end

instance : DecidableEq Step := fun a b => decidable_of_iff _ (same_iff a b)

mutual

def toJson : Step → Json
  | .wait frames => .single "wait" (.ofMembers [("frames", .ofNat frames.toNat)])
  | .run stmts => .single "run" (Stmt.listToJson stmts)
  | .parallel branches => .single "parallel" (.arr (branchesToJson branches))
  | .transition effect frames => .single "transition"
      (.ofMembers [("effect", .ofString effect.name), ("frames", .ofNat frames.toNat)])

def toJsonAll : List Step → List Json
  | [] => []
  | s :: rest => toJson s :: toJsonAll rest

def branchesToJson : List (List Step) → List Json
  | [] => []
  | b :: rest => .arr (toJsonAll b) :: branchesToJson rest

end

/-- Reads a step that opens at most `depth` brackets inside one another. A group without branches
opens none for them. -/
def ofJson? (depth : Nat) (j : Json) : Option Step :=
  match depth, j.variant? with
  | depth + 1, some ("wait", body) => Json.within depth fun _ => do
    let f ← body.fields? ["frames"]
    return .wait (← f.need "frames" Json.u16?)
  | depth + 1, some ("run", body) => (Stmt.listOfJson? depth body).map .run
  | 2, some ("parallel", body) => (Json.items? (fun _ => none) body).map .parallel
  | depth + 3, some ("parallel", body) =>
    (Json.items? (Json.items? (ofJson? depth)) body).map .parallel
  | depth + 1, some ("transition", body) => Json.within depth fun depth => do
    let f ← body.fields? ["effect", "frames"]
    return .transition (← f.need "effect" (Effect.ofJson? depth)) (← f.need "frames" Json.u8?)
  | _, _ => none

end Step

/-- Something that happens at a frame. -/
inductive Action where
  | run (stmts : List Stmt)
  | transition (effect : Effect) (frames : UInt8)
  deriving DecidableEq

structure Cue where
  frame : Nat
  action : Action
  deriving DecidableEq

end Cutscene

/-- A named sequence of steps. -/
structure Cutscene where
  name : String
  steps : List Cutscene.Step
  deriving DecidableEq

namespace Cutscene

def duration (c : Cutscene) : Nat := Step.total c.steps

mutual

/-- Places a step at a frame: its cues, in the order of declaration, and the frame after it. Branches
start together, and the group ends with the last of them. -/
def Step.place (start : Nat) : Step → List Cue × Nat
  | .wait frames => ([], start + frames.toNat)
  | .run stmts => ([⟨start, .run stmts⟩], start)
  | .parallel branches =>
    let (cues, ends) := placeBranches start branches
    (cues, ends.max?.getD start)
  | .transition effect frames => ([⟨start, .transition effect frames⟩], start + frames.toNat)

def Step.placeAll (start : Nat) : List Step → List Cue × Nat
  | [] => ([], start)
  | s :: rest =>
    let (cues, next) := s.place start
    let (later, last) := placeAll next rest
    (cues ++ later, last)

/-- Places branches at one frame; each has an end of its own. -/
def Step.placeBranches (start : Nat) : List (List Step) → List Cue × List Nat
  | [] => ([], [])
  | b :: rest =>
    let (cues, last) := placeAll start b
    let (others, ends) := placeBranches start rest
    (cues ++ others, last :: ends)

end

/-- All cues in the order of their frames; those of one frame stay in the order of declaration. -/
def schedule (c : Cutscene) : List Cue :=
  (Step.placeAll 0 c.steps).1.mergeSort fun a b => a.frame ≤ b.frame

mutual

def Step.fades : Step → Bool
  | .wait _ | .run _ => false
  | .parallel branches => anyBranchFades branches
  | .transition _ _ => true

def Step.anyFades : List Step → Bool
  | [] => false
  | s :: rest => s.fades || anyFades rest

def Step.anyBranchFades : List (List Step) → Bool
  | [] => false
  | b :: rest => anyFades b || anyBranchFades rest

end

mutual

def Step.stmts : Step → List Stmt
  | .wait _ | .transition _ _ => []
  | .run stmts => stmts
  | .parallel branches => stmtsOfBranches branches

def Step.stmtsOf : List Step → List Stmt
  | [] => []
  | s :: rest => s.stmts ++ stmtsOf rest

def Step.stmtsOfBranches : List (List Step) → List Stmt
  | [] => []
  | b :: rest => stmtsOf b ++ stmtsOfBranches rest

end

def toJson (c : Cutscene) : Json :=
  .ofMembers [("name", .ofString c.name), ("steps", .arr (Step.toJsonAll c.steps))]

def ofJson? (depth : Nat) (j : Json) : Option Cutscene :=
  Json.within depth fun depth => do
    let f ← j.fields? ["name", "steps"]
    return ⟨← f.need "name" Json.text?, ← f.need "steps" (Json.list? depth Step.ofJson?)⟩

end Cutscene

end Cartridge
