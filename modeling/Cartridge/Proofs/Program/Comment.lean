import Cartridge.Proofs.Code.Standing
import Cartridge.Proofs.Program.Mapped
import Cartridge.Proofs.Text.Comment

/-!
Comments around texts of the author's: the title of a file, the markers of problems, and the headings of collision
loops. Titles and markers hold sanitized texts and end themselves. Headings hold the tags of a pair as they are, so
that they end themselves if and only if the tags hold no terminator.
-/
namespace Cartridge

open Code Code.Emission Lower Text

namespace Code

def marker (rule : Rule) (message : String) : String := s!"/* error {rule.text}: {sanitize message} */"

/-- Every diagnostic was noted by an item with its rule and its message. -/
theorem Context.exists_problem_of_renderAll {mapped : Bool} {c c' : Context} {items : List Item} {d : Diagnostic}
    (h : c.renderAll? mapped items = some c') (hd : d ∈ c'.diagnostics.errors) :
    d ∈ c.diagnostics.errors ∨ ∃ location, .problem d.rule d.message location ∈ items := by
  induction items generalizing c with
  | nil => cases h; exact .inl hd
  | cons i items ih =>
    obtain ⟨e,he,hc'⟩ := foldlM_cons_eq_some.mp h
    have hstep : d ∈ e.diagnostics.errors →
        d ∈ c.diagnostics.errors ∨ ∃ location, .problem d.rule d.message location = i := by
      obtain ⟨-,-,he⟩ := render?_eq_some he
      rw [he]
      cases i with
      | problem rule message location =>
        intro hd
        rcases List.mem_append.mp hd with hd | hd
        · exact .inl hd
        · rw [List.mem_singleton.mp hd]
          exact .inr ⟨location,rfl⟩
      | _ => exact .inl
    rcases ih hc' with hd | ⟨location,hitem⟩
    · rcases hstep hd with hd | ⟨location,rfl⟩
      · exact .inl hd
      · exact .inr ⟨location,List.mem_cons_self⟩
    · exact .inr ⟨location,List.mem_cons_of_mem _ hitem⟩

end Code

namespace Physics.Emit

def heading (p : Pair) : String := s!"/* {p.tagA} / {p.tagB} */"

theorem endsItself_heading (p : Pair) : EndsItself (heading p) ↔ ¬Terminates p.tagA ∧ ¬Terminates p.tagB := by
  have htext : (heading p).toList = ['/', '*'] ++
      ([] ++ ' ' :: (p.tagA.toList ++ ' ' :: (['/'] ++ ' ' :: p.tagB.toList))) ++ ' ' :: terminator := by
    simp [heading, terminator, toString]
  have hempty : ¬terminator <:+: [] := by decide
  have hslash : ¬terminator <:+: ['/'] := by decide
  rw [endsItself_iff htext, terminator_infix_append_cons (by decide), terminator_infix_append_cons (by decide),
    terminator_infix_append_cons (by decide), Terminates, Terminates]
  tauto

/-- The loops of a pair stand below its heading. -/
theorem holds_heading {s : Scope} {p : Pair} (hp : p ∈ Program.shownPairs s) :
    (Program.content s .physicsFunctions).Holds (.mark (.line (heading p))) := by
  cases hw : s.game.physics with
  | none => simp [Program.shownPairs, hw] at hp
  | some w =>
    simp only [Program.shownPairs, hw] at hp
    split_ifs at hp with hempty
    · cases hp
    have hloops : (pairLoops s p).Holds (.mark (.line (heading p))) :=
      .left (holds_emit (by simp [heading]))
    have hbody : (collideBody s w).Holds (.mark (.line (heading p))) := by
      rw [collideBody]
      split
      next hnone =>
        rw [hnone] at hp
        cases hp
      next => exact .right (.each hp hloops)
    have hworld : Program.content s .physicsFunctions = world s w := by
      rw [Program.content, emit, hw]
    rw [hworld, world, if_neg hempty]
    exact .right (.right (.right (.right (.right (.right (.right (.right (.left (.function hbody)))))))))

end Physics.Emit

namespace Program

variable {g : Game} {o : Options}

theorem endsItself_title (g : Game) : EndsItself (Preamble.title g) := by
  have htext : (Preamble.title g).toList = ['/', '*'] ++ (" Generated by gbdsl from ".toList ++ '"' ::
      (sanitizeChars g.name.toList ++ '"' :: ". Do not edit.".toList)) ++ ' ' :: terminator := by
    have hfront : "/* Generated by gbdsl from \"".toList =
        ['/', '*'] ++ " Generated by gbdsl from ".toList ++ ['"'] := by decide
    have hback : "\". Do not edit. */".toList = '"' :: ". Do not edit.".toList ++ ' ' :: terminator := by decide
    have happend : Preamble.title g =
        "/* Generated by gbdsl from \"" ++ sanitize g.name ++ "\". Do not edit. */" := rfl
    rw [happend, String.toList_append, String.toList_append, hfront, hback, sanitize]
    simp only [String.toList_ofList, List.append_assoc, List.cons_append, List.nil_append]
  have hname : ¬terminator <:+: sanitizeChars g.name.toList ++ '"' :: ". Do not edit.".toList :=
    not_terminator_infix_append_cons (by decide) (not_terminator_infix_sanitizeChars _) (by decide +kernel)
  exact (endsItself_iff htext).mpr (not_terminator_infix_append_cons (by decide) (by decide +kernel) hname)

theorem endsItself_marker (rule : Rule) (message : String) : EndsItself (marker rule message) := by
  have htext : (marker rule message).toList = ['/', '*'] ++ (" error V".toList ++ rule.number.toNat.repr.toList ++
      ':' :: ([] ++ ' ' :: sanitizeChars message.toList)) ++ ' ' :: terminator := by
    simp [marker, Rule.text, sanitize, terminator, toString]
  have hrule : ¬terminator <:+: " error V".toList ++ rule.number.toNat.repr.toList := by
    intro h
    have hstar : '*' ∈ " error V".toList ++ rule.number.toNat.repr.toList := h.subset (by decide)
    rcases List.mem_append.mp hstar with hfixed | hdigit
    · revert hfixed
      decide
    · rw [Nat.repr, String.toList_ofList] at hdigit
      cases isDigit_of_mem_toDigits hdigit
  have hmessage : ¬terminator <:+: [] ++ ' ' :: sanitizeChars message.toList :=
    not_terminator_infix_append_cons (by decide) (by decide) (not_terminator_infix_sanitizeChars _)
  exact (endsItself_iff htext).mpr (not_terminator_infix_append_cons (by decide) hrule hmessage)

def comments (s : Scope) (warnings : List Diagnostic) : List String :=
  Preamble.title s.game :: warnings.map (fun d => marker d.rule d.message)
    ++ (shownPairs s).map Physics.Emit.heading

theorem holds_file_of_preamble {i : Item} (h : (Preamble.emit ⟨g, o.lower⟩
    (Generator.prototypes { game := g, options := o })).Holds i) :
    (Generator.file { game := g, options := o }).Holds i := .left h

theorem holds_file_of_content {place : Section} {i : Item} (h : (content ⟨g, o.lower⟩ place).Holds i) :
    (Generator.file { game := g, options := o }).Holds i := by
  have horder : place ∈ Section.order := by cases place <;> decide
  refine .right (.right (.each horder ?_))
  rw [Generator.sectionCode_eq rfl]
  exact .right h

/-- What is emitted on a line of its own stands in the file. -/
theorem standsIn_source {file : Generated} (h : generate g o = .ok file) {i : Item} {text : String}
    (hi : (Generator.file { game := g, options := o }).Holds i)
    (hmarks : ∀ current, i.marks current = [.line text]) (htext : text ≠ "") : StandsIn text file.source := by
  obtain ⟨c,hc,hends,hsource,-,-⟩ := file_of_generate h
  rw [hsource]
  exact Context.standsIn_renderAll hc (hi hends) hmarks htext

theorem exists_problem_of_warning {file : Generated} (h : generate g o = .ok file) {d : Diagnostic}
    (hd : d ∈ file.warnings) :
    ∃ location, .problem d.rule d.message location ∈ (Generator.file { game := g, options := o }).items := by
  obtain ⟨c,hc,-,-,-,hwarnings⟩ := file_of_generate h
  rw [hwarnings] at hd
  obtain ⟨x,hx,rfl⟩ := List.mem_map.mp hd
  exact (Context.exists_problem_of_renderAll hc hx).resolve_left nofun

/-- A lenient run gives a file whenever everything is emitted and its lines can be counted. -/
theorem exists_file_of_ends (hlenient : o.strict = false) (h : (Generator.file { game := g, options := o }).Ends)
    (hlines : fileLines g o.lower ≤ Page.maxLines.toNat) : ∃ file, generate g o = .ok file := by
  obtain ⟨c,hc⟩ := Option.isSome_iff_exists.mp ((isSome_renderAll_start_iff g o).mpr hlines)
  have hfinish : ∃ file, Generator.finish { game := g, options := o } c = .ok file := by
    simp [Generator.finish, hlenient]
  obtain ⟨file,hfile⟩ := hfinish
  exact ⟨file,generate_eq_ok_iff.mpr ⟨c,hc,h,hfile⟩⟩

/-- The title of a file, the markers of its warnings and the headings of its collision loops stand in it. Titles and
markers end themselves; a heading does if and only if no tag of its pair holds a terminator. -/
theorem comments_end_themselves {file : Generated} (h : generate g o = .ok file) :
    (∀ c ∈ comments ⟨g, o.lower⟩ file.warnings, StandsIn c file.source) ∧
    EndsItself (Preamble.title g) ∧ (∀ d ∈ file.warnings, EndsItself (marker d.rule d.message)) ∧
    ∀ p ∈ shownPairs ⟨g, o.lower⟩,
      EndsItself (Physics.Emit.heading p) ↔ ¬Terminates p.tagA ∧ ¬Terminates p.tagB := by
  refine ⟨?_,endsItself_title g,fun d _ => endsItself_marker d.rule d.message,
    fun p _ => Physics.Emit.endsItself_heading p⟩
  simp only [comments, List.cons_append, List.forall_mem_cons, List.forall_mem_append, List.forall_mem_map]
  refine ⟨?_,fun d hd => ?_,fun p hp => ?_⟩
  · exact standsIn_source h (holds_file_of_preamble (.left (holds_emit List.mem_cons_self))) (fun _ => rfl)
      (endsItself_title g).ne_empty
  · obtain ⟨location,hmem⟩ := exists_problem_of_warning h hd
    exact standsIn_source h (fun _ => hmem) (fun _ => rfl) (endsItself_marker _ _).ne_empty
  · exact standsIn_source h (holds_file_of_content (Physics.Emit.holds_heading hp)) (fun _ => rfl)
      (by simp +decide [Physics.Emit.heading])

def duel : Game where
  name := "duel */ at dawn"
  entities := [⟨"hero", "red*", 8, 8, 0, 0⟩, ⟨"wall", "/blue", 8, 8, 16, 0⟩]
  scenes := [{ name := "field" }]
  initialScene := some "arena */"
  physics := some { pairs := [{ tagA := "red*", tagB := "/blue" }] }

theorem duel_comments_end_themselves : ∃ file, generate duel { strict := false } = .ok file ∧
    comments ⟨duel, {}⟩ file.warnings =
      ["/* Generated by gbdsl from \"duel * / at dawn\". Do not edit. */",
        "/* error V102: initial scene 'arena * /' is not declared */", "/* red* / /blue */"] ∧
    (∀ c ∈ comments ⟨duel, {}⟩ file.warnings, StandsIn c file.source) ∧ EndsItself "/* red* / /blue */" := by
  have hends : (Generator.file { game := duel, options := { strict := false } }).Ends := by
    show (Generator.file { game := duel, options := { strict := false } }).result = .ok ()
    decide +kernel
  obtain ⟨file,h⟩ := exists_file_of_ends rfl hends (by decide +kernel)
  obtain ⟨hstand,-,-,hheading⟩ := comments_end_themselves h
  refine ⟨file,h,?_,hstand,?_⟩
  · obtain ⟨c,hc,-,-,-,hwarnings⟩ := file_of_generate h
    have hcomments : (Context.start.renderAll? true
        (Generator.file { game := duel, options := { strict := false } }).items).map
        (fun c => comments ⟨duel, {}⟩ (c.diagnostics.errors.map Diagnostic.toWarning)) = some
          ["/* Generated by gbdsl from \"duel * / at dawn\". Do not edit. */",
            "/* error V102: initial scene 'arena * /' is not declared */", "/* red* / /blue */"] := by decide +kernel
    rw [hwarnings]
    exact Option.some_inj.mp ((congrArg (Option.map _) hc).symm.trans hcomments)
  · exact (hheading ⟨"red*", "/blue", true, []⟩ (by decide +kernel)).mpr (by decide)

def brawl : Game where
  name := "brawl"
  entities := [⟨"hero", "a*/b", 8, 8, 0, 0⟩, ⟨"wall", "c", 8, 8, 0, 0⟩]
  scenes := [{ name := "field" }]
  physics := some { pairs := [{ tagA := "a*/b", tagB := "c", solid := false }] }

/-- The heading of the loops of this tag ends inside the tag. -/
theorem brawl_heading_ends_early : ∃ file, generate brawl {} = .ok file ∧
    StandsIn "/* a*/b / c */" file.source ∧ ¬EndsItself "/* a*/b / c */" := by
  have hclean : (Generator.file { game := brawl, options := {} }).Clean :=
    ⟨⟨(),by decide +kernel⟩,by decide +kernel⟩
  obtain ⟨file,h⟩ := (exists_file_iff rfl).mpr ⟨hclean,by decide +kernel⟩
  have hshown : (⟨"a*/b", "c", false, []⟩ : Physics.Pair) ∈ shownPairs ⟨brawl, {}⟩ := by decide +kernel
  refine ⟨file,h,?_,fun hends => ?_⟩
  · exact standsIn_source h (holds_file_of_content (Physics.Emit.holds_heading hshown)) (fun _ => rfl) (by decide)
  · have htag : ¬Terminates "a*/b" := ((Physics.Emit.endsItself_heading ⟨"a*/b", "c", false, []⟩).mp hends).1
    exact htag (by decide)

end Program

end Cartridge
