import Mathlib.Data.List.Perm.Basic
import Cartridge.Proofs.Program.Closed
import Cartridge.Proofs.Program.Definition

/-!
Prototypes and definitions. They are written by different parts of a file, yet each section defines
just the functions it has prototypes for, static ones aside, and only the main function has none.
-/
namespace Cartridge

open Code Code.Emission Lower

def Scored (text : String) : Prop := '_' ∈ text.toList

namespace Scored

theorem literal {cs : List Char} (h : '_' ∈ cs) : Scored (.ofList cs) := by
  rwa [Scored, String.toList_ofList]

theorem left {a b : String} (h : Scored a) : Scored (a ++ b) := by
  rw [Scored, String.toList_append]
  exact List.mem_append_left _ h

theorem right {a b : String} (h : Scored b) : Scored (a ++ b) := by
  rw [Scored, String.toList_append]
  exact List.mem_append_right _ h

theorem prototype {h : Header} (hsig : Scored h.signature) : Scored h.prototype := hsig.left

theorem procedure {name : String} (h : Scored name) : Scored (Header.procedure name).prototype :=
  .prototype (.left (.right h))

end Scored

namespace Scene.Emit

variable {s : Scope}

private theorem isStatic_dispatcher (h : Hook) : h.dispatcher.isStatic = false := by
  cases h with
  | frame => exact Header.isStatic_procedure _
  | enter | exit =>
    exact Header.isStatic_eq_false (c := 'v') (.append (.append (begins_literal rfl))) (by decide)

theorem exports_definitions : (Header.exports (definitions s.game)).Perm (prototypes s) := by
  have hhandlers (scene : Scene) : Header.exports ((hooks scene).map fun h => h.handler scene) =
      ((hooks scene).map fun h => h.handler scene).map Header.prototype :=
    Header.exports_of_not_static (by simp [Hook.handler])
  have hchange : Header.exports [change] = [change.prototype] := by
    refine Header.exports_of_not_static (List.forall_mem_singleton.mpr ?_)
    exact Header.isStatic_eq_false (c := 'v') (begins_literal rfl) (by decide)
  have hdispatch : Header.exports (Hook.all.map Hook.dispatcher) =
      (Hook.all.map Hook.dispatcher).map Header.prototype :=
    Header.exports_of_not_static (by simp [isStatic_dispatcher])
  have happly : Header.exports [applyPending] = [] :=
    Header.exports_of_static (List.forall_mem_singleton.mpr (Header.isStatic_of_begins (begins_literal rfl)))
  unfold definitions prototypes
  split
  next => exact .nil
  next =>
    simp only [Header.exports_append, Header.exports_flatMap, hhandlers, hchange, hdispatch, happly, List.append_nil,
      List.map_append, List.map_flatMap, List.map_singleton, ← List.append_assoc]
    exact List.perm_append_comm.append_right _

theorem scored_prototypes : ∀ t ∈ prototypes s, Scored t := by
  have hchange : Scored change.prototype := .prototype (.literal (by decide))
  have hhandler (h : Hook) (scene : Scene) : Scored (h.handler scene).prototype :=
    .procedure (.left (.left (.left (.literal (by decide)))))
  have hdispatcher (h : Hook) : Scored h.dispatcher.prototype := by
    cases h with
    | frame => exact .procedure (.literal (by decide))
    | enter | exit => exact .prototype (.left (.left (.literal (by decide))))
  unfold prototypes
  split
  next => exact nofun
  next =>
    simp only [List.forall_mem_map, List.forall_mem_append, List.forall_mem_flatMap,
      List.forall_mem_singleton]
    exact ⟨⟨hchange,fun scene _ h _ => hhandler h scene⟩,fun h _ => hdispatcher h⟩

end Scene.Emit

namespace Machine.Emit

variable {s : Scope}

theorem exports_definitions : (Header.exports (s.game.machines.flatMap definitions)).Perm (prototypes s) := by
  have hmachine (m : Machine) : Header.exports (definitions m) = [(start m).prototype, (update m).prototype] := by
    have hdispatch (occasion : String) : (dispatcher m occasion).isStatic = true :=
      Header.isStatic_of_begins (.append (.append (begins_literal rfl)))
    have hchange : (change m).isStatic = true :=
      Header.isStatic_of_begins (.append (.append (begins_literal rfl)))
    simp [Header.exports, definitions, hdispatch, hchange, start, update]
  simp only [Header.exports_flatMap, hmachine, prototypes]
  exact .refl _

theorem scored_prototypes : ∀ t ∈ prototypes s, Scored t := by
  refine List.forall_mem_flatMap.mpr fun m _ => ?_
  have hstart : Scored (start m).prototype := .procedure (.right (.literal (by decide)))
  have hupdate : Scored (update m).prototype := .procedure (.right (.literal (by decide)))
  simp [hstart, hupdate]

end Machine.Emit

namespace Cutscene

variable {s : Scope}

theorem exports_definitions : (Header.exports (s.game.cutscenes.flatMap fun c => [Emit.start c, Emit.step c])).Perm
    (Emit.prototypes s) := by
  simp only [Header.exports_flatMap, Emit.prototypes]
  simp [Header.exports, Emit.start, Emit.step]

theorem exports_fades : (Header.exports (Fade.definitions s.game)).Perm (Fade.prototypes s) := by
  have hstart : Fade.start.isStatic = false :=
    Header.isStatic_eq_false (c := 'v') (begins_literal rfl) (by decide)
  unfold Fade.definitions Fade.prototypes
  split
  next => simp [Header.exports, hstart, Fade.step]
  next => exact .nil

theorem scored_prototypes : ∀ t ∈ Emit.prototypes s, Scored t := by
  refine List.forall_mem_flatMap.mpr fun c _ => ?_
  have hstart : Scored (Emit.start c).prototype := .procedure (.right (.literal (by decide)))
  have hstep : Scored (Emit.step c).prototype := .procedure (.right (.literal (by decide)))
  simp [hstart, hstep]

theorem scored_fades : ∀ t ∈ Fade.prototypes s, Scored t := by
  have hstart : Scored Fade.start.prototype := .prototype (.literal (by decide))
  have hstep : Scored Fade.step.prototype := .procedure (.literal (by decide))
  unfold Fade.prototypes
  split
  next => simp [hstart, hstep]
  next => exact nofun

end Cutscene

namespace Game.Slots

variable {s : Scope}

theorem exports_definitions :
    (Header.exports ((livePools s.game).flatMap fun p => [spawn p, despawn p])).Perm (prototypes s) := by
  have hspawn (p : Pool) : (spawn p).isStatic = false :=
    Header.isStatic_eq_false (c := 'u') (.append (.append (begins_literal rfl))) (by decide)
  have hdespawn (p : Pool) : (despawn p).isStatic = false :=
    Header.isStatic_eq_false (c := 'v') (.append (.append (begins_literal rfl))) (by decide)
  simp only [Header.exports_flatMap, prototypes]
  simp [Header.exports, hspawn, hdespawn]

theorem scored_prototypes : ∀ t ∈ prototypes s, Scored t := by
  refine List.forall_mem_flatMap.mpr fun p _ => ?_
  have hspawn : Scored (spawn p).prototype := .prototype (.left (.left (.literal (by decide))))
  have hdespawn : Scored (despawn p).prototype := .prototype (.right (.literal (by decide)))
  simp [hspawn, hdespawn]

end Game.Slots

namespace Physics.Emit

variable {s : Scope}

theorem exports_helperDefinitions : (Header.exports (helperDefinitions s.game)).Perm (overlapPrototypes s) := by
  have hstatic : overlap.isStatic = false :=
    Header.isStatic_eq_false (c := 'u') (.append (begins_literal rfl)) (by decide)
  unfold helperDefinitions overlapPrototypes
  split
  next => simp [Header.exports, hstatic]
  next => exact .nil

theorem exports_definitions : (Header.exports (definitions s.game)).Perm (prototypes s) := by
  have hparts : Header.exports [gravityAt, integrate, bounce, separate, collide] = [] := by
    refine Header.exports_of_static fun h hh => Header.isStatic_of_begins ?_
    simp only [List.mem_cons, List.not_mem_nil, or_false] at hh
    rcases hh with rfl | rfl | rfl | rfl | rfl <;> exact begins_literal rfl
  have hstep : Header.exports [step] = [step.prototype] :=
    Header.exports_of_not_static (List.forall_mem_singleton.mpr (Header.isStatic_procedure _))
  unfold definitions prototypes
  split
  next =>
    rw [Header.exports_append, hstep]
    split
    · exact .refl _
    · rw [hparts]
      exact .refl _
  next => exact .nil

theorem scored_overlapPrototypes : ∀ t ∈ overlapPrototypes s, Scored t := by
  have hoverlap : Scored overlap.prototype := .prototype (.left (.literal (by decide)))
  simp [overlapPrototypes, hoverlap]

theorem scored_prototypes : ∀ t ∈ prototypes s, Scored t := by
  have hstep : Scored step.prototype := .procedure (.literal (by decide))
  simp [prototypes, hstep]

end Physics.Emit

namespace Nav.Emit

variable {s : Scope}

theorem exports_definitions : (Header.exports (definitions s.game)).Perm (prototypes s) := by
  have hhelpers : Header.exports helperDefinitions = [] := by
    refine Header.exports_of_static fun h hh => Header.isStatic_of_begins ?_
    simp only [helperDefinitions, List.mem_cons, List.not_mem_nil, or_false] at hh
    rcases hh with rfl | rfl | rfl | rfl | rfl <;> exact begins_literal rfl
  have hsearch : search.isStatic = false :=
    Header.isStatic_eq_false (c := 'u') (.append (.append (begins_literal rfl))) (by decide)
  have hfind (m : Map) : (find m).isStatic = false :=
    Header.isStatic_eq_false (c := 'u') (.append (.append (begins_literal rfl))) (by decide)
  have hrest : Header.exports ([search] ++ s.game.maps.map find) =
      ([search] ++ s.game.maps.map find).map Header.prototype :=
    Header.exports_of_not_static (by simp [hsearch, hfind])
  unfold definitions prototypes
  split
  next => exact .nil
  next =>
    rw [Header.exports_append, hhelpers, hrest]
    exact .refl _

theorem scored_prototypes : ∀ t ∈ prototypes s, Scored t := by
  have hsearch : Scored search.prototype := .prototype (.left (.left (.literal (by decide))))
  have hfind (m : Map) : Scored (find m).prototype := .prototype (.left (.left (.literal (by decide))))
  unfold prototypes
  split
  next => exact nofun
  next => simp [hsearch, hfind]

end Nav.Emit

namespace Save.Emit

variable {s : Scope}

private theorem isStatic_getter (f : Field) : (getter f).isStatic = false := by
  obtain ⟨c,hc,hbegins⟩ : ∃ c, c ≠ 's' ∧ Begins [c] f.type.cType := by
    cases f.type with
    | u8 | bool | u16 => exact ⟨'u',by decide,begins_literal rfl⟩
    | i8 | i16 | fixed => exact ⟨'i',by decide,begins_literal rfl⟩
  exact Header.isStatic_eq_false (.append (.append (.append (.append (.append hbegins))))) hc

private theorem exports_schema (layout : Schema) :
    (Header.exports (definitions layout)).Perm ((headers layout).map Header.prototype) := by
  have hsetter (f : Field) : (setter f).isStatic = false :=
    Header.isStatic_eq_false (c := 'v')
      (.append (.append (.append (.append (.append (begins_literal rfl)))))) (by decide)
  have haccessors : Header.exports (layout.fields.flatMap fun f => [getter f, setter f]) =
      (layout.fields.flatMap fun f => [getter f, setter f]).map Header.prototype :=
    Header.exports_of_not_static (List.forall_mem_flatMap.mpr fun f _ => by simp [isStatic_getter, hsetter])
  have hchecksum : Header.exports (checksumDefinitions layout.checksum) = [] := by
    refine Header.exports_of_static fun h hh => ?_
    rw [checksumDefinitions] at hh
    split_ifs at hh
    · cases hh
    · rw [List.mem_singleton.mp hh]
      exact Header.isStatic_of_begins (begins_literal rfl)
  have hvalidate : validate.isStatic = false :=
    Header.isStatic_eq_false (c := 'u') (begins_literal rfl) (by decide)
  have hcommit : commit.isStatic = false :=
    Header.isStatic_eq_false (c := 'v') (begins_literal rfl) (by decide)
  have hload : load.isStatic = false :=
    Header.isStatic_eq_false (c := 'u') (begins_literal rfl) (by decide)
  have hslots : Header.exports [reset, validate, commit, load] =
      [reset, validate, commit, load].map Header.prototype :=
    Header.exports_of_not_static (by simp [hvalidate, hcommit, hload, reset])
  rw [definitions, headers, Header.exports_append, Header.exports_append, hchecksum, haccessors, hslots,
    List.nil_append, List.map_append]
  exact List.perm_append_comm

theorem exports_definitions : (Header.exports (s.game.save.toList.flatMap definitions)).Perm (prototypes s) := by
  unfold prototypes
  cases s.game.save with
  | none => exact .nil
  | some layout => simpa using exports_schema layout

theorem scored_prototypes : ∀ t ∈ prototypes s, Scored t := by
  have hreset : Scored reset.prototype := .procedure (.literal (by decide))
  have hvalidate : Scored validate.prototype := .prototype (.literal (by decide))
  have hcommit : Scored commit.prototype := .prototype (.literal (by decide))
  have hload : Scored load.prototype := .prototype (.literal (by decide))
  have hgetter (f : Field) : Scored (getter f).prototype := by
    have hname : Scored (getter f).name := .left (.literal (by decide))
    exact .prototype (.left (.left (.left (.right hname))))
  have hsetter (f : Field) : Scored (setter f).prototype := by
    have hname : Scored (setter f).name := .left (.literal (by decide))
    exact .prototype (.left (.left (.left (.left (.right hname)))))
  cases hs : s.game.save with
  | none => simp [prototypes, hs]
  | some layout =>
    simp only [prototypes, hs, headers, List.forall_mem_map, List.forall_mem_append,
      List.forall_mem_flatMap]
    exact ⟨by simp [hreset, hvalidate, hcommit, hload],fun f _ => by simp [hgetter, hsetter]⟩

end Save.Emit

namespace Program

variable {s : Scope}

/-- Every section but the last defines the functions it has prototypes for. -/
theorem exports_definitionsOf {place : Section} (h : place ≠ .entryPoint) :
    (Header.exports (definitionsOf s.game place)).Perm (prototypesOf s place) := by
  cases place with
  | entryPoint => exact absurd rfl h
  | collisionHelpers => exact Physics.Emit.exports_helperDefinitions
  | saveData => exact Save.Emit.exports_definitions
  | poolFunctions => exact Game.Slots.exports_definitions
  | cutsceneFunctions => exact Cutscene.exports_definitions
  | stateMachineUpdate => exact Machine.Emit.exports_definitions
  | cameraTransition => exact Cutscene.exports_fades
  | navigation => exact Nav.Emit.exports_definitions
  | physicsFunctions => exact Physics.Emit.exports_definitions
  | sceneFunctions => exact Scene.Emit.exports_definitions
  | _ => exact .nil

/-- Every prototype has an underscore, since the names of functions are made of several words. -/
theorem scored_prototypesOf (place : Section) : ∀ t ∈ prototypesOf s place, Scored t := by
  cases place with
  | collisionHelpers => exact Physics.Emit.scored_overlapPrototypes
  | saveData => exact Save.Emit.scored_prototypes
  | poolFunctions => exact Game.Slots.scored_prototypes
  | cutsceneFunctions => exact Cutscene.scored_prototypes
  | stateMachineUpdate => exact Machine.Emit.scored_prototypes
  | cameraTransition => exact Cutscene.scored_fades
  | navigation => exact Nav.Emit.scored_prototypes
  | physicsFunctions => exact Physics.Emit.scored_prototypes
  | sceneFunctions => exact Scene.Emit.scored_prototypes
  | _ => exact nofun

theorem not_scored_main : ¬Scored Scene.Emit.main.prototype := by
  simp [Scored, Scene.Emit.main, Header.prototype, Header.procedure, toString]

/-- The preamble is a fixed head, followed by the prototypes and a blank line if there are any. -/
theorem items_preamble (prototypes : List String) :
    (Preamble.emit s prototypes).items =
      (Preamble.emit s []).items ++ prototypes.map (fun t => .mark (.line t))
        ++ if prototypes.isEmpty then [] else [.mark .blank] := by
  cases prototypes with
  | nil => simp
  | cons t ts => rfl

namespace Generator

variable {g : Generator}

theorem prototypes_eq (h : g.emitters = []) : g.prototypes = Program.prototypes g.scope := by
  simp [prototypes, emitter?, h]

/-- The functions of a file that are not static are those with a prototype, and the main function. -/
theorem exports_file (h : g.emitters = []) (hends : g.file.Ends) :
    (g.file.exported.map Header.prototype).Perm (Scene.Emit.main.prototype :: g.prototypes) := by
  have horder : Section.order = Section.order.dropLast ++ [.entryPoint] := rfl
  have hlast : ∀ place ∈ Section.order.dropLast, place ≠ .entryPoint := by decide
  have hprototypes : g.prototypes = Section.order.dropLast.flatMap (prototypesOf g.scope) := by
    rw [prototypes_eq h, Program.prototypes, horder]
    simp [prototypesOf]
  have hmain : Header.exports (definitionsOf g.game .entryPoint) = [Scene.Emit.main.prototype] :=
    Header.exports_of_not_static (List.forall_mem_singleton.mpr (Header.isStatic_procedure _))
  have hexports : g.file.exported.map Header.prototype =
      (Section.order.dropLast.flatMap fun place => Header.exports (definitionsOf g.game place)) ++
        [Scene.Emit.main.prototype] := by
    rw [exported, defines_file h hends]
    show Header.exports (definitions g.game) = _
    rw [definitions, horder, List.flatMap_append, Header.exports_append, Header.exports_flatMap,
      List.flatMap_singleton, hmain]
    rfl
  rw [hexports, hprototypes]
  refine .trans (.append_right _ ?_) List.perm_append_comm
  exact .flatMap_left _ fun place hplace => exports_definitionsOf (s := g.scope) (hlast place hplace)

end Generator

/-- If everything is emitted, the file begins with a preamble that lists the prototypes, and they are
those of the functions that are defined and not static, each as often, but for the main function: it
is defined once and has no prototype. -/
theorem prototypes_are_definitions (game : Game) (options : Options)
    (h : (Generator.file { game, options }).Ends) :
    let g : Generator := { game, options }
    let preamble := Preamble.emit g.scope g.prototypes
    let definitions := g.file.exported.map Header.prototype
    let main := Scene.Emit.main.prototype
    preamble.items <+: g.file.items ∧
      preamble.items = (Preamble.emit g.scope []).items ++ g.prototypes.map (fun t => .mark (.line t))
        ++ (if g.prototypes.isEmpty then [] else [.mark .blank]) ∧
      definitions.Perm (main :: g.prototypes) ∧ definitions.count main = 1 ∧ main ∉ g.prototypes := by
  intro g preamble definitions main
  have hbegins : preamble.items <+: g.file.items := by
    obtain ⟨hends,-⟩ := ends_bind.mp h
    rw [Generator.file, bind_ok hends]
    exact List.prefix_append _ _
  have hexports : definitions.Perm (main :: g.prototypes) := Generator.exports_file rfl h
  have hmain : main ∉ g.prototypes := by
    rw [Generator.prototypes_eq rfl]
    intro hmem
    obtain ⟨place,-,ht⟩ := List.mem_flatMap.mp hmem
    exact not_scored_main (scored_prototypesOf place main ht)
  have hcount : definitions.count main = 1 := by
    rw [hexports.count_eq, List.count_cons_self, List.count_eq_zero.mpr hmain]
  exact ⟨hbegins,items_preamble g.prototypes,hexports,hcount,hmain⟩

/-- The courtyard has prototypes from every section but that of screen effects. -/
theorem courtyard_prototypes_are_definitions :
    let g : Generator := { game := courtyard, options := {} }
    g.file.Ends ∧ g.prototypes.length = 22 ∧
      (g.file.exported.map Header.prototype).Perm (Scene.Emit.main.prototype :: g.prototypes) := by
  have hends : (Generator.file { game := courtyard, options := {} }).Ends := clean_courtyard_file.1.choose_spec
  obtain ⟨-,-,hperm,-⟩ := prototypes_are_definitions courtyard {} hends
  exact ⟨hends,by decide +kernel,hperm⟩

end Program

end Cartridge
