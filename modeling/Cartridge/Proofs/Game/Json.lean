import Cartridge.Game.Basic
import Cartridge.Proofs.Cutscene.Timeline
import Cartridge.Proofs.Json.Reading
import Cartridge.Proofs.Json.Value
import Cartridge.Proofs.Stmt.Json

/-!
Games written as texts and read back. Each kind of declaration is a record of named members, some of
which are left out or `null` when there is nothing to say.
-/
namespace Cartridge

open Json

section declarations

@[simp] theorem VarType.ofJson?_name (t : VarType) (d : Nat) :
    ofJson? d (.ofString t.name) = some t :=
  oneOf?_ofString (by decide) (by cases t <;> decide) d

theorem Variable.spells (v : Variable) : Spells ofJson? v v.toJson :=
  spells_record (fun _ _ => rfl) rfl (by decide) (by simp) (by simp [List.lookup_cons])

theorem ArrayDecl.spells (a : ArrayDecl) : Spells ofJson? a a.toJson := by
  have hinit :
      Spells (fun d => list? d fun _ => i32?) a.init (.arr (a.init.map (.ofInt ·.toInt))) :=
    spells_list fun i _ => ⟨by simp,by simp⟩
  refine spells_record (fun _ _ => rfl) rfl (by decide) (by simp) fun d hd => ?_
  simp only [List.forall_mem_cons] at hd
  simp [List.lookup_cons, hinit.read, hd]

theorem Entity.spells (e : Entity) : Spells ofJson? e e.toJson :=
  spells_record (fun _ _ => rfl) rfl (by decide) (by simp) (by simp [List.lookup_cons])

theorem Pool.spells (p : Pool) : Spells ofJson? p p.toJson :=
  spells_record (fun _ _ => rfl) rfl (by decide) (by simp) (by simp [List.lookup_cons])

end declarations

section handlers

theorem Scene.spells (s : Scene) : Spells ofJson? s s.toJson := by
  have hplain (stmts : List Stmt) := (Stmt.spells_listToJson stmts).plain
  refine spells_record (fun _ _ => rfl) rfl (by decide) (by simp [hplain]) fun d hd => ?_
  simp only [List.forall_mem_cons] at hd
  simp [List.lookup_cons, (Stmt.spells_listToJson _).read, hd]

theorem Machine.State.spells (s : Machine.State) : Spells ofJson? s s.toJson := by
  have hplain (stmts : List Stmt) := (Stmt.spells_listToJson stmts).plain
  refine spells_record (fun _ _ => rfl) rfl (by decide) (by simp [hplain]) fun d hd => ?_
  simp only [List.forall_mem_cons] at hd
  simp [List.lookup_cons, (Stmt.spells_listToJson _).read, hd]

theorem Machine.Transition.spells (t : Machine.Transition) : Spells ofJson? t t.toJson := by
  refine spells_record (fun _ _ => rfl) rfl (by decide) (by simp [t.test.spells.plain])
    fun d hd => ?_
  simp only [List.forall_mem_cons] at hd
  simp [List.lookup_cons, t.test.spells.read, hd]

theorem Machine.spells (m : Machine) : Spells ofJson? m m.toJson := by
  have hstates := spells_list fun s (_ : s ∈ m.states) => State.spells s
  have htransitions := spells_list fun t (_ : t ∈ m.transitions) => Transition.spells t
  refine spells_record (fun _ _ => rfl) rfl (by decide) ?_ fun d hd => ?_
  · simp only [List.forall_mem_cons, hstates.plain, htransitions.plain]
    simp
  · simp only [List.forall_mem_cons] at hd
    simp [List.lookup_cons, hstates.read, htransitions.read, hd]

end handlers

section physics

@[simp] theorem Fixed.ofJson?_toJson (a : Fixed) : ofJson? a.toJson = some a := by
  simp [ofJson?, toJson]

@[simp] theorem Fixed.isPlain_toJson (a : Fixed) : a.toJson.IsPlain := isPlain_ofInt _

@[simp] theorem Fixed.toJson_ne_null (a : Fixed) : a.toJson ≠ .null := ofInt_ne_null _

namespace Physics

theorem Zone.spells (z : Zone) : Spells ofJson? z z.toJson :=
  spells_record (fun _ _ => rfl) rfl (by decide) (by simp) (by simp [List.lookup_cons])

theorem BodyDef.spells (b : BodyDef) : Spells ofJson? b b.toJson := by
  refine spells_record (fun _ _ => rfl) ?_ (by decide) ?_ fun d _ => ?_
  · cases b.friction <;> rfl
  · simp +contextual [or_imp]
  · simp [List.lookup_cons, List.lookup_append]

theorem Pair.spells (p : Pair) : Spells ofJson? p p.toJson := by
  have hhit := Stmt.spells_listToJson p.onHit
  refine spells_record (fun _ _ => rfl) rfl (by decide) (by simp [hhit.plain]) fun d hd => ?_
  simp only [List.forall_mem_cons] at hd
  simp [List.lookup_cons, hhit.read, hd]

theorem World.spells (w : World) : Spells ofJson? w w.toJson := by
  have hzones := spells_list fun z (_ : z ∈ w.zones) => Zone.spells z
  have hbodies := spells_list fun b (_ : b ∈ w.bodies) => BodyDef.spells b
  have hpairs := spells_list fun p (_ : p ∈ w.pairs) => Pair.spells p
  refine spells_record (fun _ _ => rfl) rfl (by decide) ?_ fun d hd => ?_
  · simp only [List.forall_mem_cons, hzones.plain, hbodies.plain, hpairs.plain]
    simp
  · simp only [List.forall_mem_cons] at hd
    simp [List.lookup_cons, hzones.read, hbodies.read, hpairs.read, hd]

end Physics

end physics

namespace Nav

theorem Grid.spells_bytes (bytes : List UInt8) : Spells bytesOfJson? bytes (bytesToJson bytes) :=
  spells_list fun b _ => ⟨by simp,by simp⟩

theorem Grid.spells (g : Grid) : Spells ofJson? g g.toJson := by
  have hplain (bytes : List UInt8) := (spells_bytes bytes).plain
  refine spells_record (fun _ _ => rfl) ?_ (by decide) ?_ fun d hd => ?_
  · cases g.weights <;> rfl
  · simp +contextual [or_imp, hplain]
  · have hwalkable := hd ("walkable", bytesToJson g.walkable) (by simp)
    have hweights : ∀ w ∈ g.weights, bytesToJson w ≠ .null ∧
        bytesOfJson? d (bytesToJson w) = some w := by
      intro w hw
      refine ⟨nofun,(spells_bytes w).read (hd ("weights", bytesToJson w) ?_)⟩
      simp [Option.mem_def.mp hw]
    simp [List.lookup_cons, (spells_bytes _).read hwalkable, elim_nullable? hweights]

@[simp] theorem Heuristic.oneOf?_name (h : Heuristic) (d : Nat) :
    oneOf? all name d (.ofString h.name) = some h :=
  oneOf?_ofString (by decide) (by cases h <;> decide) d

theorem Config.spells (c : Config) : Spells ofJson? c c.toJson :=
  spells_record (fun _ _ => rfl) rfl (by decide) (by simp) (by simp [List.lookup_cons])

theorem Map.spells (m : Map) : Spells ofJson? m m.toJson := by
  refine spells_record (fun _ _ => rfl) rfl (by decide)
    (by simp [m.grid.spells.plain, m.config.spells.plain]) fun d hd => ?_
  simp only [List.forall_mem_cons] at hd
  simp [List.lookup_cons, m.grid.spells.read, m.config.spells.read, hd]

end Nav

namespace Save

@[simp] theorem FieldType.ofJson?_name (t : FieldType) (d : Nat) :
    ofJson? d (.ofString t.name) = some t :=
  oneOf?_ofString (by decide) (by cases t <;> decide) d

theorem Field.spells (f : Field) : Spells ofJson? f f.toJson := by
  refine spells_record (fun _ _ => rfl) ?_ (by decide) ?_ fun d _ => ?_
  · cases f.arrayLength <;> rfl
  · simp +contextual [or_imp]
  · simp [List.lookup_cons, List.lookup_append]

@[simp] theorem Checksum.ofJson?_toJson (c : Checksum) (d : Nat) : ofJson? d c.toJson = some c :=
  oneOf?_ofString (by decide) (by cases c <;> decide) d

@[simp] theorem Checksum.isPlain_toJson (c : Checksum) : c.toJson.IsPlain := isPlain_ofString _

theorem Schema.isPlain_magic (m : Option Magic) : (magicToJson m).IsPlain := by
  cases m <;> simp [magicToJson]

theorem Schema.nullable?_magic (m : Option Magic) {d : Nat} (hd : (magicToJson m).depth ≤ d) :
    nullable? (magicOfJson? d) (magicToJson m) = some m := by
  cases m with
  | none => rfl
  | some m =>
    obtain ⟨d,rfl,-⟩ := depth_arr_le.mp hd
    obtain ⟨⟨bytes⟩,hsize⟩ := m
    match bytes, hsize with
    | [a, b, c, e], _ => simp [magicToJson, nullable?, magicOfJson?, within]

theorem Schema.spells (s : Schema) : Spells ofJson? s s.toJson := by
  have hfields := spells_list fun f (_ : f ∈ s.fields) => Field.spells f
  refine spells_record (fun _ _ => rfl) rfl (by decide) ?_ fun d hd => ?_
  · simp only [List.forall_mem_cons, hfields.plain]
    simp [isPlain_magic]
  · simp only [List.forall_mem_cons] at hd
    simp [List.lookup_cons, hfields.read, nullable?_magic, hd]

end Save

namespace Cutscene

@[simp] theorem Effect.ofJson?_name (e : Effect) (d : Nat) :
    ofJson? d (.ofString e.name) = some e :=
  oneOf?_ofString (by decide) (by cases e <;> decide) d

namespace Step

theorem toJsonAll_eq_map (steps : List Step) : toJsonAll steps = steps.map toJson := by
  induction steps with
  | nil => rfl
  | cons s steps ih => rw [toJsonAll, ih, List.map_cons]

theorem branchesToJson_eq_map (branches : List (List Step)) :
    branchesToJson branches = branches.map fun b => .arr (b.map toJson) := by
  induction branches with
  | nil => rfl
  | cons b branches ih => rw [branchesToJson, ih, List.map_cons, toJsonAll_eq_map]

/-- Every step is read as it was written. -/
theorem spells (s : Step) : Spells ofJson? s s.toJson := by
  induction s with
  | wait frames =>
    rw [toJson]
    refine spells_variant (by simp) fun d _ => ?_
    simp [ofJson?, within, fields?_ofMembers]
  | run stmts =>
    rw [toJson]
    have hstmts := Stmt.spells_listToJson stmts
    refine ⟨by simpa using hstmts.plain,fun hd => ?_⟩
    obtain ⟨d,rfl,hbody⟩ := depth_single_le.mp hd
    simp [ofJson?, hstmts.read hbody]
  | parallel branches hsteps =>
    rw [toJson, branchesToJson_eq_map]
    refine ⟨?_,fun hd => ?_⟩
    · simpa using fun b hb s hs => (hsteps b hb s hs).plain
    · obtain ⟨d,rfl,hbody⟩ := depth_single_le.mp hd
      obtain ⟨d,rfl,hbranches⟩ := depth_arr_le.mp hbody
      rw [List.forall_mem_map] at hbranches
      cases d with
      | zero =>
        have hnone : branches = [] := by
          refine List.eq_nil_iff_forall_not_mem.mpr fun b hb => ?_
          simpa using depth_arr_le.mp (hbranches b hb)
        simp [hnone, ofJson?, items?]
      | succ d =>
        have hread :
            items? (items? (ofJson? d)) (.arr (branches.map fun b => .arr (b.map toJson))) =
            some branches := by
          refine mapM_map fun b hb => ?_
          obtain ⟨_,he,hitems⟩ := depth_arr_le.mp (hbranches b hb)
          cases he
          exact items?_map (hsteps b hb) hitems
        simp [ofJson?, hread]
  | transition effect frames =>
    rw [toJson]
    refine spells_variant (by simp) fun d _ => ?_
    simp [ofJson?, within, fields?_ofMembers, List.lookup_cons]

end Step

theorem spells (c : Cutscene) : Spells ofJson? c c.toJson := by
  have hsteps := spells_list fun s (_ : s ∈ c.steps) => Step.spells s
  rw [← Step.toJsonAll_eq_map] at hsteps
  refine spells_record (fun _ _ => rfl) rfl (by decide) (by simpa using hsteps.plain) fun d hd => ?_
  simp only [List.forall_mem_cons] at hd
  simp [List.lookup_cons, hsteps.read, hd]

end Cutscene

namespace Game

theorem spells {g : Game} (hproper : (Value.obj g.extensions).Every Value.Proper)
    (hexact : (Value.obj g.extensions).Every Value.Exact) : Spells ofJson? g g.toJson := by
  have hscalars := spells_list fun v (_ : v ∈ g.scalars) => Variable.spells v
  have harrays := spells_list fun a (_ : a ∈ g.arrays) => ArrayDecl.spells a
  have hentities := spells_list fun e (_ : e ∈ g.entities) => Entity.spells e
  have hpools := spells_list fun p (_ : p ∈ g.pools) => Pool.spells p
  have hscenes := spells_list fun s (_ : s ∈ g.scenes) => Scene.spells s
  have hmachines := spells_list fun m (_ : m ∈ g.machines) => Machine.spells m
  have hmaps := spells_list fun m (_ : m ∈ g.maps) => Nav.Map.spells m
  have hcutscenes := spells_list fun c (_ : c ∈ g.cutscenes) => Cutscene.spells c
  have hextensions := Value.spells hproper hexact
  refine spells_record (fun _ _ => rfl) ?_ (by decide) ?_ fun d hd => ?_
  · cases g.initialScene <;> cases g.physics <;> cases g.save <;> rfl
  · simp only [List.forall_mem_append, List.forall_mem_cons, forall_mem_member?]
    simp [hscalars.plain, harrays.plain, hentities.plain, hpools.plain, hscenes.plain,
      hmachines.plain, hmaps.plain, hcutscenes.plain, hextensions.plain,
      (Physics.World.spells _).plain, (Save.Schema.spells _).plain]
  · simp only [List.forall_mem_append, List.forall_mem_cons, forall_mem_member?] at hd
    obtain ⟨⟨⟨⟨⟨⟨hfirst,-⟩,hthen⟩,hworld⟩,hnext⟩,hschema⟩,hlast⟩ := hd
    have hphysics : ∀ w ∈ g.physics, w.toJson ≠ .null ∧ Physics.World.ofJson? d w.toJson = some w :=
      fun w hw => ⟨ofMembers_ne_null _,(Physics.World.spells w).read (hworld w hw)⟩
    have hsave : ∀ s ∈ g.save, s.toJson ≠ .null ∧ Save.Schema.ofJson? d s.toJson = some s :=
      fun s hs => ⟨ofMembers_ne_null _,(Save.Schema.spells s).read (hschema s hs)⟩
    have hmembers : extensionsOfJson? d (Value.obj g.extensions).toJson = some g.extensions := by
      rw [extensionsOfJson?, hextensions.read hlast.2.1]
    simp [List.lookup_cons, List.lookup_append, hscalars.read, harrays.read, hentities.read,
      hpools.read, hscenes.read, hmachines.read, hmaps.read, hcutscenes.read, hmembers,
      elim_nullable? hphysics, elim_nullable? hsave, hfirst, hthen, hnext, hlast]

/-- The text of a game describes that game, if the layout of its save data is valid, its extensions
are proper values (all that are read are) without doubles, and its brackets are not too many inside
one another. -/
theorem parse_print {g : Game} (hsave : ∀ s ∈ g.save, s.validate = .ok ())
    (hproper : (Value.obj g.extensions).Every Value.Proper)
    (hexact : (Value.obj g.extensions).Every Value.Exact)
    (hdepth : g.toJson.depth ≤ depthLimit) : parse g.print = .ok g := by
  have hspells := spells hproper hexact
  have hdecode : decode g.toJson = .ok g := by rw [decode, hspells.read hdepth]
  rw [parse, print, parse?_pretty hspells.plain]
  change load g.toJson = .ok g
  cases hs : g.save with
  | none => simp [load, hdecode, hs, bind, Except.bind, pure, Except.pure]
  | some s => simp [load, hdecode, hs, hsave s hs, bind, Except.bind, pure, Except.pure]

def sampler : Game where
  name := "Größe \"8\\8\"\n\u0001"
  scalars := [⟨"hp", .u8, 3⟩, ⟨"speed", .fixed, -512⟩]
  arrays := [⟨"loot", .i16, 4, [1, -2]⟩]
  entities := [⟨"hero", "player", 8, 16, -3, 0⟩]
  pools := [⟨"shots", "hero", 4⟩]
  scenes := [{ name := "field", onFrame := [
    .cond (.binary .lt (.var "hp") (.int (-1)))
      [.changeScene "field" (some ⟨"ü.js", 7, some 2, some "x\ty"⟩)]
      (some [.loop (.unary .not (.index "loot" (.int 0))) [.raw "halt();" none] none]) none,
    .range "i" 0 4
      [.assignIndex "loot" (.var "i") .add (.ternary (.var "hp") (.str "") (.int 2)) none]
      (some ⟨"ü.js", 9, none, none⟩),
    .call "beep" [.call "note" [], .str "♪"] none,
    .assign "hp" .set (.int 9) none] }]
  initialScene := some "field"
  machines := [⟨"walk", "idle", [⟨"idle", [], [], [.raw "" none]⟩], [⟨"idle", "idle", .var "hp"⟩]⟩]
  physics := some
    { zones := [⟨0, -1, 2, 3, .one⟩]
      bodies := [⟨"hero", 1, none, .greatest, .one⟩, ⟨"hero", 2, some .one, .one, .zero⟩]
      pairs := [⟨"player", "player", false, [.raw "" none]⟩] }
  maps := [⟨"ground", ⟨2, 1, [3], some [1, 2]⟩, {}⟩]
  save := some ⟨[⟨"hp", .u8, 5, 1, none, 3⟩, ⟨"loot", .i16, 6, 8, some 4, 0⟩], 2, .crc8,
    some #v[1, 2, 3, 4], 1⟩
  cutscenes := [⟨"intro",
    [.wait 3, .parallel [[.run [.raw "" none], .transition .flash 2], []], .parallel []]⟩]
  extensions := [
    ("audio", .obj [("bpm", .int 140), ("tracks", .arr [.null, .bool true, .str "é"])]),
    ("zoom", .int (-1))]

theorem parse_print_sampler :
    (∀ s ∈ sampler.save, s.validate = .ok ()) ∧ sampler.toJson.depth ≤ depthLimit ∧
      parse sampler.print = .ok sampler := by
  have hsave : ∀ s ∈ sampler.save, s.validate = .ok () := by
    rintro s ⟨⟩
    cbv
  have hdepth : sampler.toJson.depth ≤ depthLimit := by decide
  refine ⟨hsave,hdepth,parse_print hsave ?_ ?_ hdepth⟩
  · simp only [sampler, Value.Every, Value.EveryMember, Value.EveryItem, Value.Proper]
    decide
  · simp [sampler, Value.Every, Value.EveryMember, Value.EveryItem, Value.Exact]

end Game

end Cartridge
