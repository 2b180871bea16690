import Cartridge.Proofs.Code.Row

/-!
What an emission notes on its way. Once everything is emitted, the places and the problems of its items
are known in order, it has entered no section and no function, and it is as far indented as it should be.
-/
namespace Cartridge

namespace Diagnostics

def addErrors (d : Diagnostics) (found : List Diagnostic) : Diagnostics :=
  { d with errors := d.errors ++ found, totalErrors := d.totalErrors + found.length }

theorem addErrors_nil (d : Diagnostics) : d.addErrors [] = d := by
  simp [addErrors]

theorem addErrors_pushError (d : Diagnostics) (x : Diagnostic) (found : List Diagnostic) :
    (d.pushError x).addErrors found = d.addErrors (x :: found) := by
  simp [addErrors, pushError, Nat.add_assoc, Nat.add_comm 1]

end Diagnostics

namespace Code

/-- What comes last behind other members, if there is something. -/
theorem getLastD_append {α : Type} (xs ys : List α) (a : α) :
    (xs ++ ys).getLastD a = ys.getLastD (xs.getLastD a) := by
  induction xs generalizing a with
  | nil => rfl
  | cons x xs ih => rw [List.cons_append, List.getLastD_cons, List.getLastD_cons, ih]

def Page.stages (p : Page) : List Stroke → List Page
  | [] => []
  | s :: strokes =>
    match s.write? p with
    | some q => q :: q.stages strokes
    | none => []

namespace Context

variable {mapped : Bool} {c d : Context} {p : Page}

/-- The pages that come about while items are rendered, one for each line and each change of the
indentation. -/
def stages (mapped : Bool) (c : Context) : List Item → List Page
  | [] => []
  | i :: items =>
    c.page.stages (i.strokes c.current) ++
      match c.render? mapped i with
      | some d => d.stages mapped items
      | none => []

theorem mem_stages_append {xs ys : List Item} : p ∈ c.stages mapped (xs ++ ys) ↔
    p ∈ c.stages mapped xs ∨ ∃ d, c.renderAll? mapped xs = some d ∧ p ∈ d.stages mapped ys := by
  induction xs generalizing c with
  | nil => simp [stages, renderAll?]
  | cons i xs ih =>
    rw [List.cons_append, stages, stages, List.mem_append, List.mem_append, or_assoc]
    refine or_congr_right ?_
    simp only [renderAll?, foldlM_cons_eq_some]
    cases c.render? mapped i with
    | none => simp
    | some d => simpa [renderAll?] using ih (c := d)

/-- The page that comes about last is the one that is left. -/
theorem getLastD_stages {items : List Item} (h : c.renderAll? mapped items = some d) :
    (c.stages mapped items).getLastD c.page = d.page := by
  have hstrokes {strokes : List Stroke} {p q : Page} (h : strokes.foldlM Stroke.write? p = some q) :
      (p.stages strokes).getLastD p = q := by
    induction strokes generalizing p with
    | nil => cases h; rfl
    | cons s strokes ih =>
      obtain ⟨r,hr,hq⟩ := foldlM_cons_eq_some.mp h
      simp only [Page.stages, hr, List.getLastD_cons, ih hq]
  induction items generalizing c with
  | nil => cases h; rfl
  | cons i items ih =>
    obtain ⟨e,he,hd⟩ := foldlM_cons_eq_some.mp h
    simp only [stages, he]
    rw [getLastD_append, hstrokes (render?_eq_some he).1, ih hd]

end Context

namespace Item

def place? : Item → Option Location
  | .origin l => some l
  | _ => none

def diagnostic? (current : Section) : Item → Option Diagnostic
  | .problem rule message location => some ⟨rule,.error,current.name,message,location⟩
  | _ => none

def Stays : Item → Prop
  | .enter _ | .beginFunction _ | .endFunction => False
  | _ => True

@[simp] theorem stays_mark (m : Mark) : (mark m).Stays := trivial

theorem Stays.render {i : Item} (h : i.Stays) {mapped : Bool} {c d : Context}
    (hd : c.render? mapped i = some d) : d.current = c.current ∧ d.functions = c.functions := by
  obtain ⟨-,-,hd⟩ := Context.render?_eq_some hd
  rw [hd]
  cases i with
  | enter | beginFunction | endFunction => cases h
  | _ => exact ⟨rfl,rfl⟩

end Item

section indents

variable {k l n : Nat}

/-- Strokes lead from one indentation to another, both counted from a level that is never left. -/
def Stroke.Indents (before after : Nat) (strokes : List Stroke) : Prop :=
  ∀ (p : Page) (level : Nat), p.depth = level + before →
    (∀ q, strokes.foldlM write? p = some q → q.depth = level + after) ∧
      ∀ q ∈ p.stages strokes, level ≤ q.depth

namespace Stroke

variable {strokes : List Stroke}

theorem indents_nil : Indents k k [] := by
  refine fun p level hdepth => ⟨?_,nofun⟩
  rintro _ ⟨⟩
  exact hdepth

theorem Indents.cons {s : Stroke} (h : Indents l n strokes)
    (hs : ∀ p q level, p.depth = level + k → s.write? p = some q → q.depth = level + l) :
    Indents k n (s :: strokes) := by
  intro p level hdepth
  simp only [foldlM_cons_eq_some, Page.stages]
  cases hq : s.write? p with
  | none => simp
  | some q =>
    have hmiddle : q.depth = level + l := hs p q level hdepth hq
    obtain ⟨hafter,hstages⟩ := h q level hmiddle
    exact ⟨by simpa using hafter,List.forall_mem_cons.mpr ⟨by omega,hstages⟩⟩

theorem Indents.line (h : Indents k l strokes) (text : String) : Indents k l (.line text :: strokes) :=
  h.cons fun _ _ _ hdepth hq => (Page.line?_eq_some hq).2.trans hdepth

theorem Indents.indent (h : Indents (k + 1) l strokes) : Indents k l (.indent :: strokes) := by
  refine h.cons ?_
  rintro p _ level hdepth ⟨⟩
  exact congrArg (· + 1) hdepth

theorem Indents.dedent (h : Indents k l strokes) : Indents (k + 1) l (.dedent :: strokes) := by
  refine h.cons ?_
  rintro p _ level hdepth ⟨⟩
  exact congrArg (· - 1) hdepth

theorem indents_lines (texts : List String) : Indents k k (texts.map line) := by
  induction texts with
  | nil => exact indents_nil
  | cons text texts ih => exact ih.line text

end Stroke

def Item.Indents (before after : Nat) (items : List Item) : Prop :=
  ∀ (mapped : Bool) (c : Context) (level : Nat), c.page.depth = level + before →
    (∀ d, c.renderAll? mapped items = some d → d.page.depth = level + after) ∧
      ∀ p ∈ c.stages mapped items, level ≤ p.depth

namespace Item

variable {xs ys : List Item}

theorem indents_nil : Indents k k [] := by
  refine fun _ _ level hdepth => ⟨?_,nofun⟩
  rintro _ ⟨⟩
  exact hdepth

theorem Indents.append (hx : Indents k l xs) (hy : Indents l n ys) : Indents k n (xs ++ ys) := by
  intro mapped c level hdepth
  obtain ⟨hmiddle,hxs⟩ := hx mapped c level hdepth
  refine ⟨fun d hd => ?_,fun p hp => ?_⟩
  · obtain ⟨e,he,hd⟩ := foldlM_append_eq_some.mp hd
    exact (hy mapped e level (hmiddle e he)).1 d hd
  · rcases Context.mem_stages_append.mp hp with hp | ⟨e,he,hp⟩
    · exact hxs p hp
    · exact (hy mapped e level (hmiddle e he)).2 p hp

/-- The level may be further out. -/
theorem Indents.inside (h : Indents k l xs) (n : Nat) : Indents (n + k) (n + l) xs := by
  intro mapped c level hdepth
  obtain ⟨hafter,hstages⟩ := h mapped c (level + n) (by omega)
  refine ⟨fun d hd => ?_,fun p hp => Nat.le_of_add_right_le (hstages p hp)⟩
  rw [hafter d hd, Nat.add_assoc]

theorem indents_item {i : Item} (h : ∀ current, Stroke.Indents k l (i.strokes current)) :
    Indents k l [i] := by
  intro mapped c level hdepth
  obtain ⟨hafter,hstages⟩ := h c.current c.page level hdepth
  refine ⟨fun d hd => ?_,fun p hp => hstages p ?_⟩
  · obtain ⟨_,hi,⟨⟩⟩ := foldlM_cons_eq_some.mp hd
    exact hafter _ (Context.render?_eq_some hi).1
  · rw [Context.stages] at hp
    cases hi : c.render? mapped i <;> simpa [hi, Context.stages] using hp

end Item

end indents

namespace Item

variable {k l n : Nat} {xs ys : List Item}

/-- What items note in order, in each section, and the indentation they lead to. -/
structure Visits (before after : Nat) (places : List Location) (found : Section → List Diagnostic)
    (items : List Item) : Prop where
  places : items.filterMap place? = places
  found : ∀ current, items.filterMap (diagnostic? current) = found current
  stays : ∀ i ∈ items, i.Stays
  indents : Indents before after items

variable {ps qs : List Location} {ds es : Section → List Diagnostic}

theorem Visits.append (hx : Visits k l ps ds xs) (hy : Visits l n qs es ys) :
    Visits k n (ps ++ qs) (fun current => ds current ++ es current) (xs ++ ys) where
  places := by rw [List.filterMap_append, hx.places, hy.places]
  found current := by rw [List.filterMap_append, hx.found, hy.found]
  stays := List.forall_mem_append.mpr ⟨hx.stays,hy.stays⟩
  indents := hx.indents.append hy.indents

end Item

namespace Emission

variable {α : Type} {k l n : Nat} {ps qs : List Location} {ds es : Section → List Diagnostic}
  {m : Emission Unit} {f : Unit → Emission Unit}

/-- If everything is emitted, these places and problems are noted in order, no section or function is
entered or left, and the indentation is led from one level to another. -/
def Visits (before after : Nat) (places : List Location) (found : Section → List Diagnostic)
    (m : Emission Unit) : Prop := m.Ends → Item.Visits before after places found m.items

theorem visits_pure : (Pure.pure () : Emission Unit).Visits k k [] (fun _ => []) :=
  fun _ => ⟨rfl,fun _ => rfl,nofun,Item.indents_nil⟩

theorem Visits.bind (hm : m.Visits k l ps ds) (hf : (f ()).Visits l n qs es) :
    (m >>= f).Visits k n (ps ++ qs) (fun current => ds current ++ es current) := by
  intro hends
  obtain ⟨hmends,hfends⟩ := ends_bind.mp hends
  rw [bind_ok hmends]
  exact (hm hmends).append (hf hfends)

/-- A step that may fail notes nothing. -/
theorem Visits.ofExcept_bind {r : Except LowerError α} {f : α → Emission Unit}
    (hf : ∀ a, (f a).Visits k n ps ds) : (ofExcept r >>= f).Visits k n ps ds := by
  cases r with
  | error e =>
    rw [bind_error (m := ofExcept _) rfl]
    exact nofun
  | ok a =>
    rw [bind_ok (m := ofExcept _) rfl]
    exact hf a

theorem Visits.inside (hm : m.Visits k l ps ds) (n : Nat) : m.Visits (n + k) (n + l) ps ds :=
  fun hends => { hm hends with indents := (hm hends).indents.inside n }

theorem visits_mark {mark : Mark} (h : Stroke.Indents k l mark.strokes) :
    (emit [.mark mark]).Visits k l [] (fun _ => []) :=
  fun _ => ⟨rfl,fun _ => rfl,by simp [emit],Item.indents_item fun _ => by
    simpa [Item.strokes, Item.marks] using h⟩

theorem visits_line (text : String) : (line text).Visits 0 0 [] (fun _ => []) :=
  visits_mark (Stroke.indents_nil.line _)

theorem visits_lines (text : String) : (lines text).Visits 0 0 [] (fun _ => []) :=
  visits_mark (Stroke.indents_lines _)

theorem visits_block (header : String) : (block header).Visits 0 1 [] (fun _ => []) :=
  visits_mark (Stroke.indents_nil.indent.line _)

theorem visits_reopen (text : String) : (reopen text).Visits 1 1 [] (fun _ => []) :=
  visits_mark (Stroke.indents_nil.indent.line _).dedent

theorem visits_close : close.Visits 1 0 [] (fun _ => []) :=
  visits_mark (Stroke.indents_nil.line _).dedent

theorem visits_problem (rule : Rule) (message : String) (loc : Option Location) :
    (problem rule message loc).Visits 0 0 []
      (fun current => [⟨rule,.error,current.name,message,loc⟩]) := by
  refine fun _ => ⟨rfl,fun _ => rfl,by simp [problem, emit, Item.Stays],?_⟩
  exact Item.indents_item fun _ => Stroke.indents_nil.line _

theorem visits_origin (loc : Option Location) : (origin loc).Visits 0 0 loc.toList (fun _ => []) := by
  cases loc with
  | none => exact visits_pure
  | some l =>
    refine fun _ => ⟨rfl,fun _ => rfl,by simp [origin, emit, Item.Stays],?_⟩
    exact Item.indents_item fun _ => Stroke.indents_nil

end Emission

/-- Entries for places in order, all in one function. Their lines do not go back, and come after those
that were there before. -/
structure EntriesFor (before : UInt32) (symbol : Option String) (places : List Location)
    (entries : List SourceMap.Entry) : Prop where
  maps : List.Forall₂ (fun e l => e.Maps e.line l ∧ e.symbol = symbol) entries places
  ordered : entries.Pairwise fun e e' => e.line ≤ e'.line
  later : ∀ e ∈ entries, before < e.line

namespace EntriesFor

variable {before : UInt32} {symbol : Option String} {places : List Location}
  {entries : List SourceMap.Entry}

theorem nil : EntriesFor before symbol [] [] := ⟨.nil,.nil,nofun⟩

/-- An entry for the very next line in front. -/
theorem cons (h : EntriesFor before symbol places entries) {line : UInt32}
    (hline : line.toNat = before.toNat + 1) (l : Location) :
    EntriesFor before symbol (l :: places)
      (⟨line,l.file,l.line,l.column,symbol,l.snippet⟩ :: entries) where
  maps := .cons ⟨⟨rfl,rfl,rfl,rfl,rfl⟩,rfl⟩ h.maps
  ordered := by
    refine .cons (fun e he => ?_) h.ordered
    have hlater := UInt32.lt_iff_toNat_lt.mp (h.later e he)
    exact UInt32.le_iff_toNat_le.mpr (hline ▸ hlater)
  later := by
    refine List.forall_mem_cons.mpr ⟨?_,h.later⟩
    exact UInt32.lt_iff_toNat_lt.mpr (hline ▸ Nat.lt_succ_self _)

theorem mono (h : EntriesFor before symbol places entries) {earlier : UInt32} (hle : earlier ≤ before) :
    EntriesFor earlier symbol places entries :=
  ⟨h.maps,h.ordered,fun e he => UInt32.lt_of_le_of_lt hle (h.later e he)⟩

end EntriesFor

namespace Context

variable {mapped : Bool} {c d : Context} {items : List Item}

theorem lineCount_render {i : Item} (h : c.render? mapped i = some d) :
    c.page.lineCount ≤ d.page.lineCount := by
  rw [UInt32.le_iff_toNat_le, c.page.counted, d.page.counted]
  exact (rows_render h).length_le

/-- Inside a function, items leave behind one entry for each place. -/
theorem entries_renderAll (hd : c.renderAll? true items = some d) (h : ∀ i ∈ items, i.Stays) :
    ∃ entries, d.sourceMap.entries = c.sourceMap.entries ++ entries ∧
      EntriesFor c.page.lineCount c.functions.head? (items.filterMap Item.place?) entries := by
  induction items generalizing c with
  | nil =>
    cases hd
    exact ⟨[],(List.append_nil _).symm,.nil⟩
  | cons i items ih =>
    obtain ⟨hi,hitems⟩ := List.forall_mem_cons.mp h
    obtain ⟨e,he,hd⟩ := foldlM_cons_eq_some.mp hd
    obtain ⟨entries,heq,hentries⟩ := ih hd hitems
    rw [(hi.render he).2] at hentries
    have hmono := hentries.mono (lineCount_render he)
    obtain ⟨-,hmap,-⟩ := render?_eq_some he
    cases i with
    | origin l =>
      obtain ⟨line,hline,hmap⟩ := Option.map_eq_some_iff.mp hmap
      rw [← hmap] at heq
      refine ⟨_,heq.trans (List.append_assoc ..),?_⟩
      exact hmono.cons (by rw [c.page.counted, Page.currentLine?_eq_some hline]) l
    | _ =>
      rw [← Option.some_inj.mp hmap] at heq
      exact ⟨entries,heq,hmono⟩

/-- Items leave behind one error for each problem. -/
theorem diagnostics_renderAll (hd : c.renderAll? mapped items = some d) (h : ∀ i ∈ items, i.Stays) :
    d.diagnostics = c.diagnostics.addErrors (items.filterMap (Item.diagnostic? c.current)) := by
  induction items generalizing c with
  | nil =>
    cases hd
    exact (Diagnostics.addErrors_nil _).symm
  | cons i items ih =>
    obtain ⟨hi,hitems⟩ := List.forall_mem_cons.mp h
    obtain ⟨e,he,hd⟩ := foldlM_cons_eq_some.mp hd
    have hrest := ih hd hitems
    rw [(hi.render he).1] at hrest
    obtain ⟨-,-,he⟩ := render?_eq_some he
    rw [hrest, he]
    cases i with
    | problem rule message loc => exact Diagnostics.addErrors_pushError ..
    | _ => rfl

end Context

end Code

end Cartridge
