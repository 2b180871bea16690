import Cartridge.Lower.Stmt
import Cartridge.Proofs.Code.Emission
import Cartridge.Proofs.Fold.Modular

/-!
Elements that are addressed by sums and products of literals. Such a subscript is folded to one literal
in the domain of the value that is read, or in the default one where an element is written. The element
is the one that is meant if the domain holds its number, or if there was nothing to fold.
-/
namespace Cartridge

namespace Expr

/-- Literals, their sums and products, the sums and products of these, and so on. -/
inductive IsConstant : Expr → Prop where
  | int (i : Int32) : IsConstant (.int i)
  | binary {op : BinOp} {l r : Expr} (hop : op = .add ∨ op = .mul) (hl : IsConstant l)
      (hr : IsConstant r) : IsConstant (.binary op l r)

theorem text_int {i : Int32} (h : 0 ≤ i.toInt) : (Expr.int i).text = toString i.toInt.toNat := by
  have hpos : ¬i < 0 := by
    rw [Int32.lt_iff_toInt_lt]
    exact not_lt.mpr h
  have habs : i.toInt.natAbs = i.toInt.toNat := by omega
  rw [text, lexemes, if_neg hpos, habs]
  simp [Lexeme.text]

theorem text_index (array : String) (e : Expr) : (Expr.index array e).text = s!"{array}[{e.text}]" := by
  apply String.toList_inj.mp
  simp [text, lexemes, Lexeme.text, toString]

end Expr

namespace Folder
variable {f : Folder} {ρ : Valuation}

/-- A constant is folded to one literal. It is the exact value if there is nothing to compute, and is
wrapped into the domain otherwise. -/
theorem exists_simplify_constant {e : Expr} (he : e.IsConstant) {v : Int} (hv : e.value? ρ = some v) :
    ∃ i : Int32, f.simplify e = .int i ∧
      ((e = .int i ∧ i.toInt = v) ∨ ((∀ j, e ≠ .int j) ∧ i.toInt = f.domain.wrap v)) := by
  induction he generalizing v with
  | int i =>
    cases hv
    exact ⟨i,rfl,.inl ⟨rfl,rfl⟩⟩
  | @binary op l r hop hl hr ihl ihr =>
    have hmodular : op.isModular = true ∧ op.isWrapped = true ∧ op ≠ .shr ∧ ∀ a, op.decided? a = none := by
      rcases hop with rfl | rfl <;> exact ⟨rfl,rfl,by decide,fun _ => rfl⟩
    obtain ⟨hmod,hwrapped,hshr,hdecided⟩ := hmodular
    have hword {e : Expr} {i : Int32} {x : Int} (h : (e = .int i ∧ i.toInt = x) ∨
        ((∀ j, e ≠ .int j) ∧ i.toInt = f.domain.wrap x)) : f.domain.word i.toInt = f.domain.word x := by
      rcases h with ⟨-,rfl⟩ | ⟨-,hx⟩
      · rfl
      · rw [hx, Domain.word_wrap]
    obtain ⟨a,b,ha,hb,hab⟩ := (Expr.value?_binary_iff hdecided).mp hv
    obtain ⟨i,hi,hia⟩ := ihl ha
    obtain ⟨j,hj,hjb⟩ := ihr hb
    obtain ⟨x,y,hx,hy,hxy⟩ := Domain.word_binary hmod (hword hia) (hword hjb)
    obtain ⟨k,hk⟩ : ∃ k, f.evaluate? op i j = some k := by
      rcases hop with rfl | rfl <;> exact ⟨_,rfl⟩
    have hfires : f.Fires (f.prepared (.binary op l r)) (.int k) := by
      simp [Fires, prepared, reduce?, literals?, hi, hj, hk]
    have hvalue := Domain.compute?_wrapped hwrapped hy (evaluate?_eq_some (absurd · hshr) hk)
    refine ⟨k,hfires.simplify_eq,.inr ⟨by simp,?_⟩⟩
    rw [hab] at hx
    cases hx
    rw [hvalue, Domain.wrap_eq_of_word_eq hxy]

/-- The literal is the exact value if and only if there is nothing to compute or the domain holds it. -/
theorem exists_simplify_constant_iff {e : Expr} (he : e.IsConstant) {v : Int}
    (hv : e.value? ρ = some v) :
    ∃ i : Int32, f.simplify e = .int i ∧ (i.toInt = v ↔ (∃ j, e = .int j) ∨ f.domain.Fits v) := by
  obtain ⟨i,hi,⟨rfl,hiv⟩ | ⟨hne,hiv⟩⟩ := exists_simplify_constant (f := f) he hv
  · exact ⟨i,hi,iff_of_true hiv (.inl ⟨i,rfl⟩)⟩
  · refine ⟨i,hi,?_⟩
    constructor
    · intro h
      rw [hiv] at h
      exact .inr (h ▸ f.domain.fits_wrap v)
    · rintro (⟨j,hj⟩ | hfits)
      · exact absurd hj (hne j)
      · rw [hiv, Domain.wrap_of_fits hfits]

end Folder

namespace Lower

open Code Code.Emission

variable {s : Scope} {array : String} {length : UInt16}

theorem toString_nat_inj {m n : Nat} (h : toString m = toString n) : m = n := by
  rw [Nat.toString_eq_ofList_toDigits, Nat.toString_eq_ofList_toDigits, String.ofList_inj] at h
  have hvalue := congrArg (Nat.ofDigitChars 10 · 0) h
  simpa only [Nat.ofDigitChars_ten_toDigits] using hvalue

/-- A literal subscript is written as the number of an element if and only if it is this number. -/
theorem literalText_iff (hlength : s.game.arrayLength? array = some length) {i : Int32} {v : Nat}
    (hv : v < length.toNat) :
    (checkSubscript s array (.int i)).map Expr.text = .ok (toString v) ↔ i.toInt = v := by
  unfold checkSubscript
  simp only [hlength, Expr.intValue?]
  split
  next hout =>
    refine iff_of_false nofun ?_
    omega
  next hout =>
    obtain ⟨hlow,-⟩ := not_or.mp hout
    change Except.ok (Expr.int i).text = _ ↔ _
    rw [Expr.text_int (not_lt.mp hlow)]
    constructor
    · intro h
      have := toString_nat_inj (Except.ok.inj h)
      omega
    · intro h
      rw [h, Int.toNat_natCast]

theorem subscriptText_literal {e : Expr} {i : Int32}
    (h : (s.folder s.options.domain).simplify e = .int i) :
    subscriptText s array e = (checkSubscript s array (.int i)).map Expr.text := by
  rw [subscriptText, h]
  change (checkSubscript s array (.int i)).bind (fun e => .ok e.text) = _
  cases checkSubscript s array (.int i) <;> rfl

theorem exprText_element {d : Domain} {e : Expr} {i : Int32} (h : (s.folder d).simplify e = .int i) :
    exprText s d (.index array e) =
      ((checkSubscript s array (.int i)).map Expr.text).map fun t => s!"{array}[{t}]" := by
  rw [exprText, Folder.simplify, h]
  change ((checkSubscript s array (.int i)).bind fun e => .ok (.index array e)).map Expr.text = _
  cases checkSubscript s array (.int i) with
  | error err => rfl
  | ok e' => exact congrArg Except.ok (Expr.text_index array e')

/-- An assignment to an element writes the subscript as it is spelled. -/
theorem stmt_assignIndex_eq_iff {value : Expr} {text : String}
    (hvalue : exprText s (s.domainOf array) value = .ok text) (e : Expr) (op : AssignOp)
    (loc : Option Location) (sub : String) :
    stmt s (.assignIndex array e op value loc) =
        (do origin loc; line s!"{array}[{sub}] {op.token} {text};") ↔
      subscriptText s array e = .ok sub := by
  have hline (t : String) (h : subscriptText s array e = .ok t) :
      stmt s (.assignIndex array e op value loc) =
        (do origin loc; line s!"{array}[{t}] {op.token} {text};") := by
    rw [stmt, hvalue, h]
    rfl
  constructor
  · intro h
    cases hsub : subscriptText s array e with
    | error err =>
      rw [stmt, hsub] at h
      cases congrArg Emission.result h
    | ok t =>
      rw [hline t hsub] at h
      have hitems := congrArg Emission.items h
      simpa [bind_ok (m := origin loc) rfl, emit, toString] using hitems
  · exact hline sub

/-- An element whose number is a sum or product of literals is read from where the number says exactly if
it is written as one literal or is a value of the domain the element is read into, and is written there
exactly if it is written as one literal or is a value of the default domain. -/
theorem constant_subscript_is_kept (s : Scope) (array : String) (length : UInt16)
    (hlength : s.game.arrayLength? array = some length) (e : Expr) (he : e.IsConstant) (ρ : Valuation)
    (v : Nat) (hv : e.value? ρ = some (v : Int)) (hlt : v < length.toNat) :
    (∀ d, exprText s d (.index array e) = .ok s!"{array}[{v}]" ↔ (∃ i, e = .int i) ∨ d.Fits v) ∧
      ∀ op value loc text, exprText s (s.domainOf array) value = .ok text →
        (stmt s (.assignIndex array e op value loc) =
            (do origin loc; line s!"{array}[{v}] {op.token} {text};") ↔
          (∃ i, e = .int i) ∨ s.options.domain.Fits v) := by
  constructor
  · intro d
    obtain ⟨i,hi,hiff⟩ : ∃ i : Int32, (s.folder d).simplify e = .int i ∧
        (i.toInt = v ↔ (∃ j, e = .int j) ∨ d.Fits v) := Folder.exists_simplify_constant_iff he hv
    rw [exprText_element hi, ← hiff, ← literalText_iff hlength hlt]
    cases (checkSubscript s array (.int i)).map Expr.text with
    | error err => exact iff_of_false nofun nofun
    | ok t => simp [Except.map, toString]
  · intro op value loc text hvalue
    obtain ⟨i,hi,hiff⟩ := Folder.exists_simplify_constant_iff (f := s.folder s.options.domain) he hv
    have hsub := stmt_assignIndex_eq_iff hvalue e op loc (toString v)
    rw [subscriptText_literal hi, literalText_iff hlength hlt, hiff] at hsub
    exact hsub

def island : Scope where
  game := { name := "island", arrays := [⟨"map",.u8,400,[]⟩] }
  options := {}

/-- The tile `3 * (20 + 30)` is read into words and written, but not read into signed bytes. -/
theorem constant_subscript_of_map :
    let e : Expr := .binary .mul (.int 3) (.binary .add (.int 20) (.int 30))
    island.game.arrayLength? "map" = some 400 ∧ e.IsConstant ∧ e.value? default = some 150 ∧
      exprText island (island.domainOf "map") (.int 1) = .ok "1" ∧
      exprText island .u16 (.index "map" e) = .ok "map[150]" ∧
      exprText island .i8 (.index "map" e) ≠ .ok "map[150]" ∧
      stmt island (.assignIndex "map" e .set (.int 1) none) = line "map[150] = 1;" := by
  intro e
  have he : e.IsConstant := .binary (.inr rfl) (.int 3) (.binary (.inl rfl) (.int 20) (.int 30))
  have hkept := constant_subscript_is_kept island "map" 400 rfl e he default 150 rfl (by decide)
  refine ⟨rfl,he,rfl,rfl,(hkept.1 .u16).mpr (.inr (by decide)),?_,?_⟩
  · intro hread
    rcases (hkept.1 .i8).mp hread with ⟨i,hi⟩ | hfits
    · simp [e] at hi
    · exact absurd hfits (by decide)
  · exact (hkept.2 .set (.int 1) none "1" rfl).mpr (.inr (by decide))

/-- The tile `200 + 100` is read and written as tile 44, and the tile `100 + 100` is refused where a
signed byte is read. -/
theorem large_subscript_turns :
    let e : Expr := .binary .add (.int 200) (.int 100)
    let e' : Expr := .binary .add (.int 100) (.int 100)
    island.game.arrayLength? "map" = some 400 ∧ e.IsConstant ∧ e'.IsConstant ∧
      e.value? default = some 300 ∧ e'.value? default = some 200 ∧
      exprText island .u8 (.index "map" e) = .ok "map[44]" ∧
      stmt island (.assignIndex "map" e .set (.int 1) none) = line "map[44] = 1;" ∧
      exprText island .i8 (.index "map" e') = .error (.indexOutOfBounds "map" (-56) 400) := by
  intro e e'
  have hword : (island.folder .u8).simplify e = .int 44 := Folder.Fires.simplify_eq rfl
  have hsigned : (island.folder .i8).simplify e' = .int (-56) := Folder.Fires.simplify_eq rfl
  refine ⟨rfl,.binary (.inl rfl) (.int 200) (.int 100),.binary (.inl rfl) (.int 100) (.int 100),rfl,rfl,
    ?_,?_,?_⟩
  · rw [exprText_element hword]
    rfl
  · have hvalue : exprText island (island.domainOf "map") (.int 1) = .ok "1" := rfl
    have hsub : subscriptText island "map" e = .ok "44" := by
      rw [subscriptText_literal hword]
      rfl
    exact (stmt_assignIndex_eq_iff hvalue e .set none "44").mpr hsub
  · rw [exprText_element hsigned]
    rfl

end Lower

end Cartridge
