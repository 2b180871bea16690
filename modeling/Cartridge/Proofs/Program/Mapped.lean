import Cartridge.Proofs.Program.Closed
import Cartridge.Proofs.Program.Line

/-!
The lines of a file and the lines of its source map. Both are counted alike if and only if no text
of the author's that is put on a line as it stands breaks that line; every entry then leads to the
first line of a statement.
-/
namespace Cartridge

namespace Code

def Item.message? : Item → Option String
  | .problem _ message _ => some message
  | _ => none

/-- Diagnostics keep the messages of the problems among the items. -/
theorem Context.messages_renderAll {mapped : Bool} {c d : Context} {items : List Item}
    (h : c.renderAll? mapped items = some d) : d.diagnostics.errors.map Diagnostic.message =
      c.diagnostics.errors.map Diagnostic.message ++ items.filterMap Item.message? := by
  induction items generalizing c with
  | nil => cases h; exact (List.append_nil _).symm
  | cons i items ih =>
    obtain ⟨e,he,hd⟩ := foldlM_cons_eq_some.mp h
    obtain ⟨-,-,he⟩ := render?_eq_some he
    rw [ih hd, he, List.filterMap_cons]
    cases i <;> simp [noted, Item.message?, Diagnostics.pushError]

/-- All texts stay on their lines if an emission is whole and the messages of its problems are. -/
theorem Emission.keepsLine_iff {α : Type} {m : Emission α} :
    (∀ i ∈ m.items, i.KeepsLine) ↔
      m.Whole ∧ Text.AreUnbroken (m.items.filterMap Item.message?) := by
  have hitem (i : Item) : i.KeepsLine ↔ (i.isProblem = false → i.KeepsLine) ∧
      ∀ message ∈ i.message?, Text.Unbroken message := by
    cases i <;> simp [Item.message?, Item.KeepsLine, Item.lineText?]
  rw [Text.areUnbroken_filterMap, Whole, ← forall₂_and]
  exact forall₂_congr fun i _ => hitem i

end Code

namespace Program

open Code Code.Emission Lower Text

def statements (s : Scope) : List Stmt := Section.order.flatMap (lowered s)

/-- The author's texts that stand on lines of a file as they are: the name of the game, names of
variables and tags, and names in statements. -/
def plainTexts (s : Scope) : List String :=
  s.game.name :: Section.order.flatMap fun place =>
    plainNames s place ++ (Stmt.walkAll (lowered s place)).flatMap (shownNames s)

theorem areUnbroken_plainTexts {s : Scope} : AreUnbroken (plainTexts s) ↔
    Unbroken s.game.name ∧ ∀ place ∈ Section.order,
      (∀ name ∈ plainNames s place, Unbroken name) ∧
        ∀ a ∈ lowered s place, KeepsLines s a := by
  have hstmts (stmts : List Stmt) : AreUnbroken ((Stmt.walkAll stmts).flatMap (shownNames s)) ↔
      ∀ a ∈ stmts, KeepsLines s a := by
    rw [areUnbroken_flatMap, Stmt.forall_mem_walkAll]
    rfl
  rw [plainTexts, areUnbroken_cons, areUnbroken_flatMap]
  simp only [areUnbroken_append, hstmts]
  rfl

variable {g : Game} {o : Options}

/-- A file stays on its lines if and only if the plain texts do, messages of problems aside, and
every place in it is that of a statement whose code begins there. -/
theorem laid_file : (Generator.file { game := g, options := o }).Laid
    (EmittedFor ⟨g, o.lower⟩ (Stmt.walkAll (statements ⟨g, o.lower⟩)))
    (AreUnbroken (plainTexts ⟨g, o.lower⟩)) := by
  have hprototypes : Generator.prototypes { game := g, options := o } =
      prototypes ⟨g, o.lower⟩ := by
    simp [Generator.prototypes, Generator.emitter?, Generator.scope]
  rw [Generator.file, hprototypes]
  refine .congr (.bind laid_preamble (.after (.each fun place hplace => ?_) inert_checks))
    areUnbroken_plainTexts.symm
  rw [Generator.sectionCode_eq rfl]
  exact .after (laid_content fun a ha => List.mem_flatMap.mpr ⟨place,hplace,ha⟩) (by simp)

def pageAfter? (o : Options) (items : List Item) : Option Page :=
  (Context.start.renderAll? o.lower.sourceMap items).map Context.page

/-- An entry has the number of the line at which the code of a statement begins. If the code has a
first line, it is the line of the source with this number. -/
def PointsToCode (g : Game) (o : Options) (source : String) (e : SourceMap.Entry) : Prop :=
  ∃ before own after l p q line,
    (Generator.file { game := g, options := o }).items = before ++ own ++ after ∧
    EmittedFor ⟨g, o.lower⟩ (Stmt.walkAll (statements ⟨g, o.lower⟩)) l own ∧
    pageAfter? o before = some p ∧ pageAfter? o (before ++ own) = some q ∧
    p.currentLine? = some line ∧ e.Maps line l ∧
    let code := q.added p
    (code ≠ "" → (pieces source.toList)[e.line.toNat - 1]? = (pieces code.toList).head?)

/-- A file that was generated was emitted to its end and rendered. -/
theorem file_of_generate {file : Generated} (h : generate g o = .ok file) :
    ∃ c, Context.start.renderAll? o.lower.sourceMap (Generator.file { game := g, options := o }).items = some c ∧
      (Generator.file { game := g, options := o }).Ends ∧ file.source = c.page.text ∧
      (o.lower.sourceMap = true → file.sourceMap = some c.sourceMap) ∧
      file.warnings = c.diagnostics.errors.map Diagnostic.toWarning := by
  obtain ⟨c,hc,hends,hfinish⟩ := generate_eq_ok_iff.mp h
  rw [Generator.finish] at hfinish
  split at hfinish
  next => cases hfinish
  next =>
    cases hfinish
    have hraised : c.diagnostics.Raised := Context.raised_renderAll Diagnostics.raised_empty hc
    refine ⟨c,hc,hends,rfl,fun hmapped => by simp only [hmapped, if_true],?_⟩
    rw [Diagnostics.downgrade_warnings, hraised.warnings, List.nil_append]

theorem messages_of_generate {file : Generated} (h : generate g o = .ok file) :
    file.warnings.map Diagnostic.message =
      (Generator.file { game := g, options := o }).items.filterMap Item.message? := by
  obtain ⟨c,hc,-,-,-,hwarnings⟩ := file_of_generate h
  rw [hwarnings, List.map_map]
  exact Context.messages_renderAll hc

/-- The lines of a file stay whole if and only if the plain texts and the messages do. -/
theorem whole_file {file : Generated} (h : generate g o = .ok file) {c : Context}
    (hc : Context.start.renderAll? o.lower.sourceMap (Generator.file { game := g, options := o }).items = some c) :
    c.page.Whole ↔ AreUnbroken (plainTexts ⟨g, o.lower⟩ ++ file.warnings.map Diagnostic.message) := by
  obtain ⟨-,-,hends,-⟩ := file_of_generate h
  have hstart : Context.start.page.Whole := nofun
  rw [Context.whole_renderAll hc, and_iff_left hstart, keepsLine_iff, laid_file.whole hends,
    areUnbroken_append, messages_of_generate h]

/-- Lines are counted right throughout a file if and only if none of the author's texts that are put
on a line as they are, messages among them, breaks its line; and then every entry of the source map
has the number of the line at which the code of its statement begins. -/
theorem mapped_lines_are_counted {file : Generated} (hmapped : o.lower.sourceMap = true)
    (h : generate g o = .ok file) :
    (∃ p, pageAfter? o (Generator.file { game := g, options := o }).items = some p ∧ p.text = file.source ∧
      (p.AlwaysCounted ↔
        AreUnbroken (plainTexts ⟨g, o.lower⟩ ++ file.warnings.map Diagnostic.message))) ∧
    (AreUnbroken (plainTexts ⟨g, o.lower⟩ ++ file.warnings.map Diagnostic.message) →
      ∃ map, file.sourceMap = some map ∧ ∀ e ∈ map.entries, PointsToCode g o file.source e) := by
  obtain ⟨c,hc,-,hsource,hmap,-⟩ := file_of_generate h
  have hwhole := whole_file h hc
  refine ⟨⟨c.page,by rw [pageAfter?, hc, Option.map_some],hsource.symm,Page.alwaysCounted_iff.trans hwhole⟩,
    fun hunbroken => ⟨_,hmap hmapped,fun e he => ?_⟩⟩
  obtain ⟨before,l,rest,b,line,hitems,hb,hline,hentry⟩ := Context.entry_of_renderAll (hmapped ▸ hc) he
  obtain ⟨own,⟨after,hafter⟩,hown⟩ := laid_file.traced l rest ⟨before,hitems.symm⟩
  have hsplit : (Generator.file { game := g, options := o }).items = before ++ own ++ after := by
    rw [hitems, ← hafter, List.append_assoc]
  rw [hsplit] at hc
  obtain ⟨d,hd,hafterRendered⟩ := foldlM_append_eq_some.mp hc
  obtain ⟨b',hb',hownRendered⟩ := foldlM_append_eq_some.mp hd
  obtain rfl : b' = b := by
    rw [← hmapped] at hb
    exact Option.some_inj.mp (hb'.symm.trans hb)
  refine ⟨before,own,after,l,b'.page,d.page,line,hsplit,hown,congrArg (Option.map _) hb',
    congrArg (Option.map _) hd,hline,hentry,fun hcode => ?_⟩
  have hnext : line.toNat - 1 = b'.page.rows.length := by
    rw [Page.currentLine?_eq_some hline, Nat.add_sub_cancel]
  rw [hentry.line, hsource, hnext]
  exact (Page.head?_pieces_added (Context.rows_renderAll hownRendered) (Context.rows_renderAll hafterRendered)
    (hwhole.mpr hunbroken) hcode).symm

def signpost : Game where
  name := "signpost"
  scalars := [⟨"hp", .u8, 3⟩]
  scenes := [{
    name := "field"
    onFrame := [.cond (.var "hp")
      [.assign "hp" .sub (.int 1) (some { file := "post.game", line := 2 })]
      (some [.cond (.int 1) [.raw "lose();\nrest();" (some { file := "post.game", line := 4 })] none
        (some { file := "post.game", line := 3 })])
      (some { file := "post.game", line := 1 })] }]

theorem signpost_lines_are_counted : ∃ file p map, generate signpost {} = .ok file ∧
    pageAfter? {} (Generator.file { game := signpost, options := {} }).items = some p ∧ p.text = file.source ∧
    p.AlwaysCounted ∧ file.sourceMap = some map ∧ map.entries.map SourceMap.Entry.line = [35, 36, 37, 38] ∧
    ∀ e ∈ map.entries, PointsToCode signpost {} file.source e := by
  have hclean : (Generator.file { game := signpost, options := {} }).Clean :=
    ⟨⟨(),by decide +kernel⟩,by decide +kernel⟩
  obtain ⟨file,h⟩ := (exists_file_iff rfl).mpr ⟨hclean,by decide +kernel⟩
  have hunbroken :
      AreUnbroken (plainTexts ⟨signpost, {}⟩ ++ file.warnings.map Diagnostic.message) := by
    have hnone : (Generator.file { game := signpost, options := {} }).items.filterMap
        Item.message? = [] := by decide +kernel
    rw [messages_of_generate h, hnone, List.append_nil]
    show ∀ text ∈ plainTexts ⟨signpost, {}⟩, Unbroken text
    decide +kernel
  obtain ⟨⟨p,hp,htext,hcounted⟩,hentries⟩ := mapped_lines_are_counted rfl h
  obtain ⟨map,hsome,hpoints⟩ := hentries hunbroken
  refine ⟨file,p,map,h,hp,htext,hcounted.mpr hunbroken,hsome,?_,hpoints⟩
  obtain ⟨c,hc,-,-,hmap,-⟩ := file_of_generate h
  have hlines : (Context.start.renderAll? true (Generator.file { game := signpost, options := {} }).items).map
      (fun c => c.sourceMap.entries.map SourceMap.Entry.line) = some [35, 36, 37, 38] := by decide +kernel
  rw [hmap rfl, Option.some.injEq] at hsome
  rw [← hsome]
  exact Option.some_inj.mp ((congrArg (Option.map _) hc).symm.trans hlines)

def twoLines : Game where
  name := "two\nlines"
  scenes := [{
    name := "field"
    onEnter := [.raw "tick();" (some { file := "two.game", line := 3 })] }]

/-- Behind a name of two lines, the only entry has the number of the line before its statement. -/
theorem broken_name_shifts_lines : ∃ file p e, generate twoLines {} = .ok file ∧
    pageAfter? {} (Generator.file { game := twoLines, options := {} }).items = some p ∧ p.text = file.source ∧
    ¬p.AlwaysCounted ∧ file.sourceMap = some ⟨[e]⟩ ∧
    (pieces file.source.toList)[e.line.toNat - 1]? = some "void scene_field_enter(void) \x7b".toList ∧
    (pieces file.source.toList)[e.line.toNat]? = some "    tick();".toList := by
  have hclean : (Generator.file { game := twoLines, options := {} }).Clean :=
    ⟨⟨(),by decide +kernel⟩,by decide +kernel⟩
  obtain ⟨file,h⟩ := (exists_file_iff rfl).mpr ⟨hclean,by decide +kernel⟩
  obtain ⟨c,hc,-,hsource,hmap,-⟩ := file_of_generate h
  refine ⟨file,c.page,⟨31, "two.game", 3, none, some "scene_field_enter", none⟩,h,?_,hsource.symm,
    fun hcounted => ?_,?_,?_⟩
  · rw [pageAfter?, hc, Option.map_some]
  · have hname : Unbroken "two\nlines" :=
      (whole_file h hc).mp (Page.alwaysCounted_iff.mp hcounted) _ (List.mem_cons_self ..)
    revert hname
    decide
  · have hentries : (Context.start.renderAll? true (Generator.file { game := twoLines, options := {} }).items).map
        Context.sourceMap = some ⟨[⟨31, "two.game", 3, none, some "scene_field_enter", none⟩]⟩ := by decide +kernel
    rw [hmap rfl]
    exact (congrArg (Option.map _) hc).symm.trans hentries
  · have hlines : (Context.start.renderAll? true (Generator.file { game := twoLines, options := {} }).items).map
        (fun c => ((c.page.rows.reverse.flatMap fun row => pieces row.toList) ++ [[]]).drop 30 |>.take 2) =
          some ["void scene_field_enter(void) \x7b".toList, "    tick();".toList] := by decide +kernel
    have hpair := Option.some_inj.mp ((congrArg (Option.map _) hc).symm.trans hlines)
    rw [hsource, Page.text, Page.pieces_textOf]
    have hnth (n : Nat) (hn : n < 2) := congrArg (fun lines : List (List Char) => lines[n]?) hpair
    simp only [List.getElem?_take, List.getElem?_drop] at hnth
    exact ⟨hnth 0 (by decide),hnth 1 (by decide)⟩

end Program

end Cartridge
