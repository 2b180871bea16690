import Mathlib.Tactic.Common
import Cartridge.Proofs.Expr.Token
import Cartridge.Proofs.Expr.Value

/-!
The grammar of C expressions over tokens. A conditional is made of binary chains, ten levels of them
from the loosest to the tightest; those are made of unary operators, and these of calls, elements and
enclosed expressions. A list of tokens has at most one reading.
-/
namespace Cartridge

/-- An expression as a reader of C sees it. Literals are never negative. -/
inductive Term where
  | number (n : Nat)
  | text (raw : String)
  | name (s : String)
  | binary (op : BinOp) (left right : Term)
  | unary (op : UnOp) (operand : Term)
  | index (array : String) (subscript : Term)
  | call (name : String) (args : List Term)
  | ternary (cond yes no : Term)

/-- The stage of the grammar that joins operands by an operator, between the conditional at stage 0 and
the unary operators at stage 11. -/
def BinOp.stage (op : BinOp) : Nat := op.level.rank + 1

theorem BinOp.stage_pos (op : BinOp) : 0 < op.stage := Nat.succ_pos _

theorem BinOp.stage_le (op : BinOp) : op.stage ≤ 10 := by cases op <;> decide

namespace Term

mutual

def value? (ρ : Valuation) : Term → Option Int
  | .number n => some n
  | .text raw => some (ρ.text raw)
  | .name s => some (ρ.var s)
  | .binary op l r => op.combine? (value? ρ l) (value? ρ r)
  | .unary op t => (value? ρ t).map op.value
  | .index array t => (value? ρ t).map (ρ.element array)
  | .call f args => (values? ρ args).map (ρ.call f)
  | .ternary c y n => (value? ρ c).bind fun b => if b = 0 then value? ρ n else value? ρ y

def values? (ρ : Valuation) : List Term → Option (List Int)
  | [] => some []
  | t :: ts => (value? ρ t).bind fun v => (values? ρ ts).map (v :: ·)

end

/-- Tokens that are a term at a stage: 0 for conditionals, 1 to 10 for binary operators, 11 for unary
operators and 12 for all that encloses itself. -/
inductive Reads : Nat → List Token → Term → Prop
  | number (n : Nat) : Reads 12 [.number n] (.number n)
  | text (raw : String) : Reads 12 [.text raw] (.text raw)
  | name (s : String) : Reads 12 [.name s] (.name s)
  | index {ts : List Token} {t : Term} (array : String) (h : Reads 0 ts t) :
    Reads 12 (.name array :: .sign "[" :: (ts ++ [.sign "]"])) (.index array t)
  | call (f : String) (args : List (List Token × Term)) (h : ∀ a ∈ args, Reads 0 a.1 a.2) :
    Reads 12 (.name f :: .sign "(" :: ([.sign ","].intercalate (args.map (·.1)) ++ [.sign ")"]))
      (.call f (args.map (·.2)))
  | enclosed {ts : List Token} {t : Term} (h : Reads 0 ts t) :
    Reads 12 (.sign "(" :: (ts ++ [.sign ")"])) t
  | unary {ts : List Token} {t : Term} (op : UnOp) (h : Reads 11 ts t) :
    Reads 11 (.sign op.token :: ts) (.unary op t)
  | binary {ls rs : List Token} {l r : Term} (op : BinOp) (hl : Reads op.stage ls l)
    (hr : Reads (op.stage + 1) rs r) : Reads op.stage (ls ++ .sign op.token :: rs) (.binary op l r)
  | ternary {cs ys ns : List Token} {c y n : Term} (hc : Reads 1 cs c) (hy : Reads 0 ys y)
    (hn : Reads 0 ns n) :
    Reads 0 (cs ++ .sign "?" :: (ys ++ .sign ":" :: ns)) (.ternary c y n)
  | tighter {k : Nat} {ts : List Token} {t : Term} (hk : k < 12) (h : Reads (k + 1) ts t) :
    Reads k ts t

/-- A text is read as a term: it is made of tokens, and they are a conditional. -/
def ReadFrom (s : String) (t : Term) : Prop :=
  ∃ ts, Token.scan s.toList = some ts ∧ Reads 0 ts t

/-- A term of a tighter stage stands wherever one of a looser stage may. -/
theorem Reads.loosen {j k : Nat} {ts : List Token} {t : Term} (h : Reads k ts t) (hj : j ≤ k)
    (hk : k ≤ 12) : Reads j ts t := by
  induction k, hj using Nat.le_induction with
  | base => exact h
  | succ k _ ih => exact ih (.tighter (by omega) h) (by omega)

def binaryAt? (k : Nat) (s : String) : Option BinOp :=
  (BinOp.all.find? (·.token = s)).filter (·.stage = k)

def unaryOf? (s : String) : Option UnOp := UnOp.all.find? (·.token = s)

def expect (s : String) : List Token → Option (List Token)
  | .sign x :: rest => if x = s then some rest else none
  | _ => none

mutual

/-- Reads as much of a list of tokens as is a term at a stage. That what is left gets shorter is asked
for on the way, as the reading could not be seen to end otherwise. -/
def read (k : Nat) (ts : List Token) : Option (Term × List Token) :=
  if k < 11 then do
    let (t,rest) ← read (k + 1) ts
    if rest.length < ts.length then more k t rest else none
  else if k = 11 then
    match ts with
    | .sign s :: rest =>
      match unaryOf? s with
      | some op => do
        let (t,rest) ← read 11 rest
        some (.unary op t,rest)
      | none => read 12 (.sign s :: rest)
    | ts => read 12 ts
  else
    match ts with
    | .number n :: rest => some (.number n,rest)
    | .text raw :: rest => some (.text raw,rest)
    | .name s :: .sign "[" :: rest => do
      let (t,rest) ← read 0 rest
      some (.index s t,← expect "]" rest)
    | .name s :: .sign "(" :: .sign ")" :: rest => some (.call s [],rest)
    | .name s :: .sign "(" :: rest => do
      let (args,rest) ← readArgs rest
      some (.call s args,rest)
    | .name s :: rest => some (.name s,rest)
    | .sign "(" :: rest => do
      let (t,rest) ← read 0 rest
      some (t,← expect ")" rest)
    | _ => none
termination_by (ts.length,13 - k)

def more (k : Nat) (t : Term) (ts : List Token) : Option (Term × List Token) :=
  match ts with
  | .sign s :: rest =>
    if k = 0 ∧ s = "?" then do
      let (y,after) ← read 0 rest
      let after ← expect ":" after
      if after.length < rest.length then
        let (n,after) ← read 0 after
        some (.ternary t y n,after)
      else none
    else
      match binaryAt? k s with
      | some op => do
        let (r,after) ← read (k + 1) rest
        if after.length < rest.length then more k (.binary op t r) after else none
      | none => some (t,.sign s :: rest)
  | ts => some (t,ts)
termination_by (ts.length,0)

def readArgs (ts : List Token) : Option (List Term × List Token) := do
  let (t,rest) ← read 0 ts
  match rest with
  | .sign "," :: rest =>
    if rest.length < ts.length then
      let (args,rest) ← readArgs rest
      some (t :: args,rest)
    else none
  | rest => some ([t],← expect ")" rest)
termination_by (ts.length,14)

end

theorem binaryAt?_token (k : Nat) (op : BinOp) :
    binaryAt? k op.token = if op.stage = k then some op else none := by
  have hop : BinOp.all.find? (·.token = op.token) = some op := by cases op <;> decide
  simp [binaryAt?, hop, Option.filter_some]

theorem stage_of_binaryAt? {k : Nat} {s : String} {op : BinOp} (h : binaryAt? k s = some op) :
    op.stage = k := by
  simpa using (Option.filter_eq_some_iff.mp h).2

theorem binaryAt?_eq_none {k : Nat} (s : String) (hk : k = 0 ∨ 11 ≤ k) : binaryAt? k s = none := by
  cases h : binaryAt? k s with
  | none => rfl
  | some op =>
    have hstage := stage_of_binaryAt? h
    have hpos := op.stage_pos
    have hle := op.stage_le
    omega

theorem unaryOf?_token (op : UnOp) : unaryOf? op.token = some op := by cases op <;> decide

def continues (k : Nat) (s : String) : Bool :=
  (binaryAt? k s).isSome || (k ≤ 1 && s = "?") || (k = 13 && (s = "(" || s = "["))

/-- Tokens before which every term at a stage or a tighter one ends. -/
def Stops (k : Nat) (ts : List Token) : Prop :=
  ∀ s, ts.head? = some (.sign s) → ∀ j, k ≤ j → continues j s = false

theorem Stops.mono {j k : Nat} {ts : List Token} (h : Stops j ts) (hk : j ≤ k) : Stops k ts :=
  fun s hs i hi => h s hs i (hk.trans hi)

theorem Stops.nil (k : Nat) : Stops k [] := by
  intro s hs
  cases hs

theorem Stops.binary {k : Nat} (op : BinOp) (ts : List Token) (hk : op.stage < k) :
    Stops k (.sign op.token :: ts) := by
  intro s hs j hj
  cases hs
  have hne : op.stage ≠ j := by omega
  have hmark : op.token ≠ "?" ∧ op.token ≠ "(" ∧ op.token ≠ "[" := by cases op <;> decide
  simp [continues, binaryAt?_token, hne, hmark]

/-- Signs that close or part terms stop all of them. -/
theorem Stops.mark {s : String} (hs : s ∈ [")", "]", ",", ":"]) (k : Nat) (ts : List Token) :
    Stops k (.sign s :: ts) := by
  intro x hx j _
  cases hx
  have hnone : binaryAt? j s = none := by
    have hfind : ∀ x ∈ [")", "]", ",", ":"], BinOp.all.find? (·.token = x) = none := by decide
    simp [binaryAt?, hfind s hs]
  have hmark : ∀ x ∈ [")", "]", ",", ":"], x ≠ "?" ∧ x ≠ "(" ∧ x ≠ "[" := by decide
  simp [continues, hnone, hmark s hs]

private theorem more_ends {k : Nat} {ts : List Token} (t : Term)
    (h : ∀ s, ts.head? = some (.sign s) → binaryAt? k s = none ∧ ¬(k = 0 ∧ s = "?")) :
    more k t ts = some (t,ts) := by
  rw [more.eq_def]
  split
  next s rest =>
    obtain ⟨hnone,hmark⟩ := h s rfl
    rw [if_neg hmark, hnone]
  · rfl

theorem more_of_stops {k : Nat} {ts : List Token} (t : Term) (h : Stops k ts) :
    more k t ts = some (t,ts) := by
  refine more_ends t fun s hs => ?_
  have hk := h s hs k le_rfl
  simp only [continues, Bool.or_eq_false_iff, Option.isSome_eq_false_iff,
    Option.isNone_iff_eq_none] at hk
  refine ⟨hk.1.1,?_⟩
  rintro ⟨rfl,rfl⟩
  simp at hk

/-- A question mark goes on with a conditional only. -/
theorem Stops.question {k : Nat} (hk : 2 ≤ k) (ts : List Token) : Stops k (.sign "?" :: ts) := by
  intro s hs j hj
  cases hs
  have hfind : BinOp.all.find? (·.token = "?") = none := by decide
  have hj : ¬j ≤ 1 := by omega
  simp [continues, binaryAt?, hfind, hj]

theorem more_question (t : Term) (ts : List Token) :
    more 1 t (.sign "?" :: ts) = some (t,.sign "?" :: ts) := by
  refine more_ends t fun s hs => ?_
  cases hs
  exact ⟨by decide,by omega⟩

theorem more_conditional (t : Term) {ts : List Token} (h : Stops 1 ts) :
    more 0 t ts = some (t,ts) := by
  refine more_ends t fun s hs => ⟨binaryAt?_eq_none s (.inl rfl),?_⟩
  rintro ⟨-,rfl⟩
  have hone := h "?" hs 1 le_rfl
  simp [continues] at hone

/-- Only binary operators and conditionals go on after their first operand. -/
theorem more_tight {k : Nat} (hk : 11 ≤ k) (t : Term) (ts : List Token) :
    more k t ts = some (t,ts) :=
  more_ends t fun s _ => ⟨binaryAt?_eq_none s (.inr hk),by omega⟩

theorem more_binary (op : BinOp) (t : Term) {rest after : List Token} {r : Term}
    (h : read (op.stage + 1) rest = some (r,after)) (hlt : after.length < rest.length) :
    more op.stage t (.sign op.token :: rest) = more op.stage (.binary op t r) after := by
  have hpos := op.stage_pos
  rw [more, if_neg (by omega), binaryAt?_token, if_pos rfl]
  simp only [h, Option.bind_eq_bind, Option.bind_some, if_pos hlt]

theorem more_ternary (t : Term) {rest after last : List Token} {y n : Term}
    (hy : read 0 rest = some (y,.sign ":" :: after)) (hlt : after.length < rest.length)
    (hn : read 0 after = some (n,last)) :
    more 0 t (.sign "?" :: rest) = some (.ternary t y n,last) := by
  rw [more, if_pos ⟨rfl,rfl⟩]
  simp [hy, expect, hlt, hn]

theorem read_loose {k : Nat} (hk : k < 11) {ts rest : List Token} {t : Term}
    (h : read (k + 1) ts = some (t,rest)) (hlt : rest.length < ts.length) :
    read k ts = more k t rest := by
  rw [read.eq_def, if_pos hk]
  simp only [h, Option.bind_eq_bind, Option.bind_some, if_pos hlt]

theorem read_unary (op : UnOp) (rest : List Token) :
    read 11 (.sign op.token :: rest) = (read 11 rest).bind fun p => some (.unary op p.1,p.2) := by
  rw [read.eq_def, if_neg (by omega), if_pos rfl]
  simp only [unaryOf?_token]
  rfl

def Begins : Token → Prop
  | .sign s => s = "("
  | _ => True

theorem read_operand {x : Token} (hx : Begins x) (rest : List Token) :
    read 11 (x :: rest) = read 12 (x :: rest) := by
  rw [read.eq_def, if_neg (by omega), if_pos rfl]
  cases x with
  | sign s =>
    cases hx
    rfl
  | _ => rfl

theorem read_index (s : String) (rest : List Token) :
    read 12 (.name s :: .sign "[" :: rest) =
      (read 0 rest).bind fun p => (expect "]" p.2).bind fun rest => some (.index s p.1,rest) := by
  rw [read.eq_def]
  rfl

theorem read_enclosed (rest : List Token) :
    read 12 (.sign "(" :: rest) =
      (read 0 rest).bind fun p => (expect ")" p.2).bind fun rest => some (p.1,rest) := by
  rw [read.eq_def]
  rfl

theorem read_name {s : String} {rest : List Token} (h : Stops 13 rest) :
    read 12 (.name s :: rest) = some (.name s,rest) := by
  have hbracket : ∀ ts, rest ≠ .sign "[" :: ts := by
    rintro ts rfl
    simpa [continues] using h "[" rfl 13 le_rfl
  have hparen : ∀ ts, rest ≠ .sign "(" :: ts := by
    rintro ts rfl
    simpa [continues] using h "(" rfl 13 le_rfl
  rw [read.eq_def, if_neg (by omega), if_neg (by omega)]
  split <;> simp_all

theorem read_call {s : String} {x : Token} (hx : x ≠ .sign ")") (rest : List Token) :
    read 12 (.name s :: .sign "(" :: x :: rest) =
      (readArgs (x :: rest)).bind fun p => some (.call s p.1,p.2) := by
  rw [read]
  · rfl
  · rintro ts he
    cases he
    exact hx rfl

/-- A term never starts with a closing parenthesis, and at the tightest stage with no unary sign. -/
theorem Reads.starts {k : Nat} {ts : List Token} {t : Term} (h : Reads k ts t) :
    ∃ x xs, ts = x :: xs ∧ x ≠ .sign ")" ∧ (k = 12 → Begins x) := by
  induction h with
  | number | text | name => exact ⟨_,_,rfl,by simp,fun _ => trivial⟩
  | index | call => exact ⟨_,_,rfl,by simp,fun _ => trivial⟩
  | enclosed => exact ⟨_,_,rfl,by simp,fun _ => rfl⟩
  | unary op =>
    refine ⟨_,_,rfl,?_,by omega⟩
    cases op <;> decide
  | binary op _ _ ihl =>
    obtain ⟨x,xs,rfl,hx,-⟩ := ihl
    have hle := op.stage_le
    exact ⟨x,_,rfl,hx,by omega⟩
  | ternary _ _ _ ihc =>
    obtain ⟨x,xs,rfl,hx,-⟩ := ihc
    exact ⟨x,_,rfl,hx,by omega⟩
  | tighter hk _ ih =>
    obtain ⟨x,xs,rfl,hx,-⟩ := ih
    exact ⟨x,xs,rfl,hx,by omega⟩

theorem Reads.length_lt {k : Nat} {ts : List Token} {t : Term} (h : Reads k ts t) (rest : List Token) :
    rest.length < (ts ++ rest).length := by
  obtain ⟨x,xs,rfl,-⟩ := h.starts
  simp only [List.length_append, List.length_cons]
  omega

def IsReadBack (k : Nat) (ts : List Token) (t : Term) : Prop :=
  ∀ rest, Stops (k + 1) rest → read k (ts ++ rest) = more k t rest

/-- A conditional is read whole before any sign that closes or parts terms. -/
theorem IsReadBack.before {ts : List Token} {t : Term} (h : IsReadBack 0 ts t) {rest : List Token}
    (hr : Stops 0 rest) : read 0 (ts ++ rest) = some (t,rest) := by
  rw [h rest (hr.mono (by omega)), more_of_stops t hr]

theorem IsReadBack.args (a : List Token × Term) (args : List (List Token × Term))
    (h : ∀ b ∈ a :: args, IsReadBack 0 b.1 b.2) (rest : List Token) :
    readArgs ([.sign ","].intercalate ((a :: args).map (·.1)) ++ .sign ")" :: rest) =
      some ((a :: args).map (·.2),rest) := by
  induction args generalizing a with
  | nil =>
    have ha := (h a (by simp)).before (Stops.mark (s := ")") (by decide) 0 rest)
    rw [readArgs]
    simp [List.intercalate, ha, expect]
  | cons b args ih =>
    have hb := ih b fun c hc => h c (List.mem_cons_of_mem a hc)
    have ha := (h a (by simp)).before (Stops.mark (s := ",") (by decide) 0
      ([.sign ","].intercalate ((b :: args).map (·.1)) ++ .sign ")" :: rest))
    have hsplit : [.sign ","].intercalate ((a :: b :: args).map (·.1)) ++ .sign ")" :: rest =
        a.1 ++ .sign "," :: ([.sign ","].intercalate ((b :: args).map (·.1)) ++ .sign ")" :: rest) := by
      simp [List.intercalate]
    rw [readArgs, hsplit, ha]
    simp only [Option.bind_eq_bind, Option.bind_some, hb]
    rw [if_pos (by simp only [List.length_append, List.length_cons]; omega)]
    rfl

theorem Reads.isReadBack {k : Nat} {ts : List Token} {t : Term} (h : Reads k ts t) :
    IsReadBack k ts t := by
  induction h with
  | number n =>
    intro rest _
    rw [more_tight (by omega), read.eq_def]
    rfl
  | text raw =>
    intro rest _
    rw [more_tight (by omega), read.eq_def]
    rfl
  | name s =>
    intro rest hr
    rw [more_tight (by omega)]
    exact read_name hr
  | @index ts t array h ih =>
    intro rest _
    have hts := ih.before (Stops.mark (s := "]") (by decide) 0 rest)
    rw [more_tight (by omega)]
    simp [read_index, hts, expect]
  | call f args h ih =>
    intro rest _
    rw [more_tight (by omega)]
    cases args with
    | nil =>
      rw [read.eq_def]
      rfl
    | cons a args =>
      have hargs := IsReadBack.args a args ih rest
      obtain ⟨x,xs,hx,hne,-⟩ := (h a (by simp)).starts
      obtain ⟨ys,hys⟩ : ∃ ys, [.sign ","].intercalate ((a :: args).map (·.1)) ++ .sign ")" :: rest =
          x :: ys := by
        cases args <;> simp [List.intercalate, hx]
      rw [hys] at hargs
      rw [List.cons_append, List.cons_append, List.append_assoc, List.singleton_append, hys,
        read_call hne, hargs]
      rfl
  | @enclosed ts t h ih =>
    intro rest _
    have hts := ih.before (Stops.mark (s := ")") (by decide) 0 rest)
    rw [more_tight (by omega)]
    simp [read_enclosed, hts, expect]
  | @unary ts t op h ih =>
    intro rest hr
    have hts := ih rest hr
    rw [more_tight (by omega)] at hts ⊢
    rw [List.cons_append, read_unary, hts]
    rfl
  | @binary ls rs l r op hl hr ihl ihr =>
    intro rest hrest
    have hright := ihr rest (hrest.mono (by omega))
    rw [more_of_stops r hrest] at hright
    rw [List.append_assoc, List.cons_append, ihl _ (Stops.binary op _ (by omega)),
      more_binary op l hright (hr.length_lt rest)]
  | @ternary cs ys ns c y n hc hy hn ihc ihy ihn =>
    intro rest hrest
    have hno := ihn rest hrest
    have hyes := ihy.before (Stops.mark (s := ":") (by decide) 0 (ns ++ rest))
    rw [more_conditional n hrest] at hno
    have hcond := ihc _ (Stops.question (by omega) (ys ++ .sign ":" :: (ns ++ rest)))
    rw [more_question] at hcond
    have hlt := hy.length_lt (.sign ":" :: (ns ++ rest))
    rw [more_conditional _ hrest, List.append_assoc, List.cons_append, List.append_assoc,
      List.cons_append, read_loose (by omega) hcond (hc.length_lt _)]
    exact more_ternary c hyes (Nat.lt_of_succ_lt hlt) hno
  | @tighter k ts t hk h ih =>
    intro rest hrest
    have hts := ih rest (hrest.mono (by omega))
    rw [more_of_stops t hrest] at hts
    rcases Nat.lt_or_ge k 11 with hlt | hge
    · exact read_loose hlt hts (h.length_lt rest)
    · obtain rfl : k = 11 := by omega
      obtain ⟨x,xs,rfl,-,hx⟩ := h.starts
      rw [more_tight (by omega)]
      rw [List.cons_append] at hts ⊢
      rw [read_operand (hx rfl), hts]

theorem Reads.read_eq {ts : List Token} {t : Term} (h : Reads 0 ts t) : read 0 ts = some (t,[]) := by
  have hread := h.isReadBack.before (Stops.nil 0)
  rwa [List.append_nil] at hread

/-- A text has at most one reading. -/
theorem ReadFrom.unique {s : String} {t u : Term} (ht : ReadFrom s t) (hu : ReadFrom s u) : t = u := by
  obtain ⟨ts,hts,ht⟩ := ht
  obtain ⟨us,hus,hu⟩ := hu
  obtain rfl : ts = us := Option.some.inj (hts.symm.trans hus)
  have heq := ht.read_eq.symm.trans hu.read_eq
  cases heq
  rfl

end Term

end Cartridge
