import Mathlib.Tactic.Common
import Cartridge.Code.Construct

/-!
Laws of emission. Four things are followed through the parts of an emission: whether it may fault,
what all its items have in common, whether it ends without a problem on the way, and what is left of
it when places are forgotten.
-/
namespace Cartridge.Code

namespace Item

def isProblem : Item → Bool
  | .problem .. => true
  | _ => false

def strip : Item → Option Item
  | .origin _ => none
  | .problem rule message _ => some (.problem rule message none)
  | i => some i

end Item

attribute [simp] Item.isProblem

namespace Emission

attribute [simp] line lines blank block close reopen indent dedent banner enter arm choice braced

variable {α β : Type}

section monad

theorem bind_ok {m : Emission α} {a : α} (h : m.result = .ok a) (f : α → Emission β) :
    m >>= f = ⟨m.items ++ (f a).items, (f a).result⟩ := by
  change Emission.bind m f = _
  rw [Emission.bind, h]

theorem bind_error {m : Emission α} {e : Halt LowerError} (h : m.result = .error e)
    (f : α → Emission β) : m >>= f = ⟨m.items, .error e⟩ := by
  change Emission.bind m f = _
  rw [Emission.bind, h]

instance : LawfulMonad Emission := .mk' Emission
  (by
    intro α m
    change Emission.bind m Emission.pure = m
    obtain ⟨items,_ | a⟩ := m <;> simp [Emission.bind, Emission.pure])
  (by
    intro α β a f
    change Emission.bind (Emission.pure a) f = f a
    simp [Emission.bind, Emission.pure])
  (by
    intro α β γ m f g
    change Emission.bind (Emission.bind m f) g = Emission.bind m fun a => Emission.bind (f a) g
    cases hm : m.result with
    | error e => simp [Emission.bind, hm]
    | ok a => cases hf : (f a).result <;> simp [Emission.bind, hm, hf])

@[simp] theorem each_nil (f : α → Emission Unit) : each f [] = Pure.pure () := rfl

theorem each_cons (f : α → Emission Unit) (x : α) (xs : List α) :
    each f (x :: xs) = (do f x; each f xs) := rfl

theorem each_singleton (f : α → Emission Unit) (x : α) : each f [x] = f x := bind_pure_unit

theorem each_append (f : α → Emission Unit) (xs ys : List α) :
    each f (xs ++ ys) = (do each f xs; each f ys) := by
  induction xs with
  | nil => exact (pure_bind () fun _ => each f ys).symm
  | cons x xs ih => simp only [List.cons_append, each, ih, bind_assoc]

@[simp] theorem each_map (f : β → Emission Unit) (e : α → β) (xs : List α) :
    each f (xs.map e) = each (fun x => f (e x)) xs := by
  induction xs with
  | nil => rfl
  | cons x xs ih => rw [List.map_cons, each, each, ih]

end monad

section faultless

/-- No index or sum leaves its range. -/
def Faultless (m : Emission α) : Prop := m.result ≠ .error .fault

@[simp] theorem faultless_pure (a : α) : (Pure.pure a : Emission α).Faultless := nofun

@[simp] theorem faultless_emit (items : List Item) : (emit items).Faultless := nofun

@[simp] theorem faultless_verbatim (texts : List String) : (verbatim texts).Faultless :=
  faultless_emit _

@[simp] theorem faultless_ofExcept (r : Except LowerError α) : (ofExcept r).Faultless := by
  cases r <;> exact nofun

@[simp] theorem faultless_ofConfig (r : Except Error α) : (ofConfig r).Faultless :=
  faultless_ofExcept _

@[simp] theorem faultless_ofHalt {r : Except (Halt Error) α} :
    (ofHalt r).Faultless ↔ r ≠ .error .fault := by
  rcases r with (e | _) | a <;> simp [ofHalt, Faultless]

@[simp] theorem faultless_function (h : Header) (body : Emission Unit) :
    (function h body).Faultless ↔ body.Faultless := Iff.rfl

@[simp] theorem faultless_bind {m : Emission α} {f : α → Emission β} :
    (m >>= f).Faultless ↔ m.Faultless ∧ ∀ a, m.result = .ok a → (f a).Faultless := by
  cases h : m.result with
  | ok a =>
    rw [bind_ok h]
    simp [Faultless, h]
  | error e =>
    rw [bind_error h]
    simp [Faultless, h]

theorem Faultless.bind {m : Emission α} {f : α → Emission β} (hm : m.Faultless)
    (hf : ∀ a, (f a).Faultless) : (m >>= f).Faultless :=
  faultless_bind.mpr ⟨hm,fun a _ => hf a⟩

@[simp] theorem faultless_ite {c : Prop} [Decidable c] {m n : Emission α} :
    (if c then m else n).Faultless ↔ (c → m.Faultless) ∧ (¬c → n.Faultless) := by
  split <;> simp [*]

@[simp] theorem Faultless.each {f : α → Emission Unit} {xs : List α}
    (h : ∀ x ∈ xs, (f x).Faultless) : (each f xs).Faultless := by
  induction xs with
  | nil => exact faultless_pure ()
  | cons x xs ih =>
    obtain ⟨hx,hxs⟩ := List.forall_mem_cons.mp h
    exact hx.bind fun _ => ih hxs

end faultless

section ends

/-- Everything was emitted. -/
def Ends (m : Emission Unit) : Prop := m.result = .ok ()

@[simp] theorem ends_pure : (Pure.pure () : Emission Unit).Ends := rfl

@[simp] theorem ends_emit (items : List Item) : (emit items).Ends := rfl

@[simp] theorem ends_verbatim (texts : List String) : (verbatim texts).Ends := ends_emit _

@[simp] theorem ends_problem (rule : Rule) (message : String) (location : Option Location) :
    (problem rule message location).Ends := rfl

@[simp] theorem ends_bind {m : Emission Unit} {f : Unit → Emission Unit} :
    (m >>= f).Ends ↔ m.Ends ∧ (f ()).Ends := by
  cases h : m.result with
  | ok a =>
    rw [bind_ok h]
    simp [Ends, h]
  | error e =>
    rw [bind_error h]
    simp [Ends, h]

@[simp] theorem ends_function {h : Header} {body : Emission Unit} :
    (function h body).Ends ↔ body.Ends := Iff.rfl

@[simp] theorem ends_ite {c : Prop} [Decidable c] {m n : Emission Unit} :
    (if c then m else n).Ends ↔ (c → m.Ends) ∧ (¬c → n.Ends) := by
  split <;> simp [*]

@[simp] theorem ends_each {f : α → Emission Unit} {xs : List α} :
    (each f xs).Ends ↔ ∀ x ∈ xs, (f x).Ends := by
  induction xs with
  | nil => exact iff_of_true ends_pure nofun
  | cons x xs ih => rw [each, ends_bind, ih, List.forall_mem_cons]

theorem Ends.bind_eq {m : Emission Unit} {f : Unit → Emission β} (h : m.Ends) :
    (m >>= f).result = (f ()).result := by
  rw [bind_ok h]

/-- It depends on a condition alone whether everything is emitted or a fault met. -/
structure Guards (m : Emission Unit) (p : Prop) : Prop where
  ends : p → m.Ends
  fails : ¬p → m.result = .error .fault

theorem Ends.guards {m : Emission Unit} {f : Unit → Emission Unit} {p : Prop} (hm : m.Ends)
    (hf : (f ()).Guards p) : (m >>= f).Guards p where
  ends h := ends_bind.mpr ⟨hm,hf.ends h⟩
  fails h := hm.bind_eq.trans (hf.fails h)

theorem Guards.bind {m : Emission Unit} {f : Unit → Emission Unit} {p q : Prop} (hm : m.Guards p)
    (hf : (f ()).Guards q) : (m >>= f).Guards (p ∧ q) where
  ends h := ends_bind.mpr ⟨hm.ends h.1,hf.ends h.2⟩
  fails h := by
    by_cases hp : p
    · rw [(hm.ends hp).bind_eq]
      exact hf.fails fun hq => h ⟨hp,hq⟩
    · rw [bind_error (hm.fails hp)]

theorem Guards.each {f : α → Emission Unit} {p : α → Prop} (h : ∀ x, (f x).Guards (p x))
    (xs : List α) : (each f xs).Guards (∀ x ∈ xs, p x) := by
  induction xs with
  | nil => exact ⟨fun _ => ends_pure,by simp⟩
  | cons x xs ih =>
    rw [Emission.each, List.forall_mem_cons]
    exact (h x).bind ih

theorem guards_ofOption_bind {r : Option α} {f : α → Emission Unit} (h : ∀ a, (f a).Ends) :
    (ofOption r >>= f).Guards r.isSome := by
  cases r with
  | none =>
    rw [bind_error (m := ofOption none) rfl]
    exact ⟨nofun,fun _ => rfl⟩
  | some a =>
    rw [bind_ok (m := ofOption (some a)) rfl]
    exact ⟨fun _ => h a,fun hne => absurd rfl hne⟩

end ends

section every

variable {p : Item → Prop}

def Every (p : Item → Prop) (m : Emission α) : Prop := ∀ i ∈ m.items, p i

@[simp] theorem every_pure (a : α) : (Pure.pure a : Emission α).Every p := nofun

@[simp] theorem every_emit {items : List Item} : (emit items).Every p ↔ ∀ i ∈ items, p i := Iff.rfl

@[simp] theorem every_verbatim {texts : List String} :
    (verbatim texts).Every p ↔ ∀ t ∈ texts, p (.mark (.line t)) := List.forall_mem_map

@[simp] theorem every_ofExcept (r : Except LowerError α) : (ofExcept r).Every p := nofun

@[simp] theorem every_ofConfig (r : Except Error α) : (ofConfig r).Every p := nofun

@[simp] theorem every_ofHalt (r : Except (Halt Error) α) : (ofHalt r).Every p := by
  rcases r with (e | _) | a <;> exact nofun

@[simp] theorem every_ofOption (r : Option α) : (ofOption r).Every p := nofun

theorem Every.bind {m : Emission α} {f : α → Emission β} (hm : m.Every p)
    (hf : ∀ a, m.result = .ok a → (f a).Every p) : (m >>= f).Every p := by
  cases h : m.result with
  | ok a =>
    rw [bind_ok h]
    exact List.forall_mem_append.mpr ⟨hm,hf a h⟩
  | error e =>
    rw [bind_error h]
    exact hm

/-- What comes second is emitted only after the first part has ended. -/
@[simp] theorem every_bind {m : Emission Unit} {f : Unit → Emission β} :
    (m >>= f).Every p ↔ m.Every p ∧ (m.Ends → (f ()).Every p) := by
  refine ⟨fun h => ?_,fun h => h.1.bind fun _ => h.2⟩
  cases hr : m.result with
  | ok a =>
    rw [bind_ok hr] at h
    obtain ⟨hm,hf⟩ := List.forall_mem_append.mp h
    exact ⟨hm,fun _ => hf⟩
  | error e =>
    rw [bind_error hr] at h
    refine ⟨h,fun hends => ?_⟩
    rw [Ends, hr] at hends
    cases hends

@[simp] theorem every_ofExcept_bind {r : Except LowerError α} {f : α → Emission β}
    (hf : ∀ a, (f a).Every p) : (ofExcept r >>= f).Every p :=
  (every_ofExcept r).bind fun a _ => hf a

@[simp] theorem every_ite {c : Prop} [Decidable c] {m n : Emission α} :
    (if c then m else n).Every p ↔ (c → m.Every p) ∧ (¬c → n.Every p) := by
  split <;> simp [*]

@[simp] theorem Every.each {f : α → Emission Unit} {xs : List α} (h : ∀ x ∈ xs, (f x).Every p) :
    (each f xs).Every p := by
  induction xs with
  | nil => exact every_pure ()
  | cons x xs ih =>
    obtain ⟨hx,hxs⟩ := List.forall_mem_cons.mp h
    exact hx.bind fun _ _ => ih hxs

@[simp] theorem every_function {h : Header} {body : Emission Unit} :
    (function h body).Every p ↔ p (.beginFunction h) ∧ body.Every p ∧ p .endFunction := by
  simp [Every, function, or_imp, forall_and]

end every

section clean

/-- Everything was emitted and no problem noted. -/
def Clean (m : Emission α) : Prop :=
  (∃ a, m.result = .ok a) ∧ ∀ i ∈ m.items, i.isProblem = false

@[simp] theorem clean_pure (a : α) : (Pure.pure a : Emission α).Clean := ⟨⟨a,rfl⟩,nofun⟩

@[simp] theorem clean_emit {items : List Item} :
    (emit items).Clean ↔ ∀ i ∈ items, i.isProblem = false :=
  ⟨fun h => h.2,fun h => ⟨⟨(),rfl⟩,h⟩⟩

@[simp] theorem clean_verbatim (texts : List String) : (verbatim texts).Clean := by
  simp [verbatim]

@[simp] theorem not_clean_problem (rule : Rule) (message : String) (location : Option Location) :
    ¬(problem rule message location).Clean := by
  simp [problem, Item.isProblem]

@[simp] theorem clean_ofExcept_bind {r : Except LowerError α} {f : α → Emission β} :
    (ofExcept r >>= f).Clean ↔ ∃ a, r = .ok a ∧ (f a).Clean := by
  cases r with
  | error e =>
    rw [bind_error (m := ofExcept _) rfl]
    simp [Clean]
  | ok a =>
    rw [bind_ok (m := ofExcept _) rfl]
    simp [Clean, ofExcept]

@[simp] theorem clean_bind {m : Emission Unit} {f : Unit → Emission β} :
    (m >>= f).Clean ↔ m.Clean ∧ (f ()).Clean := by
  cases h : m.result with
  | error e =>
    rw [bind_error h]
    simp [Clean, h]
  | ok a =>
    rw [bind_ok h]
    simp only [Clean, h, List.forall_mem_append]
    grind

@[simp] theorem clean_ite {c : Prop} [Decidable c] {m n : Emission α} :
    (if c then m else n).Clean ↔ (c → m.Clean) ∧ (¬c → n.Clean) := by
  split <;> simp [*]

@[simp] theorem clean_each {f : α → Emission Unit} {xs : List α} :
    (each f xs).Clean ↔ ∀ x ∈ xs, (f x).Clean := by
  induction xs with
  | nil => exact iff_of_true (clean_pure ()) nofun
  | cons x xs ih => rw [each, clean_bind, ih, List.forall_mem_cons]

@[simp] theorem clean_function {h : Header} {body : Emission Unit} :
    (function h body).Clean ↔ body.Clean := by
  simp only [Clean, function, List.forall_mem_append, List.forall_mem_cons]
  exact ⟨fun ⟨hend,⟨_,hbody⟩,_⟩ => ⟨hend,hbody⟩,fun ⟨hend,hbody⟩ => ⟨hend,⟨rfl,hbody⟩,rfl,nofun⟩⟩

theorem clean_arm {label : String} {body : Emission Unit} :
    (arm label body).Clean ↔ body.Clean := by
  simp

theorem clean_choice {selector : String} {arms : Emission Unit} :
    (choice selector arms).Clean ↔ arms.Clean := by
  simp

end clean

section alike

/-- The same result, and the same items but for places. -/
structure Alike (m n : Emission α) : Prop where
  result : m.result = n.result
  items : m.items.filterMap Item.strip = n.items.filterMap Item.strip

theorem Alike.refl (m : Emission α) : m.Alike m := ⟨rfl,rfl⟩

theorem Alike.of_eq {m n : Emission α} (h : m = n) : m.Alike n := h ▸ .refl m

theorem Alike.symm {m n : Emission α} (h : m.Alike n) : n.Alike m := ⟨h.result.symm,h.items.symm⟩

theorem Alike.trans {m n p : Emission α} (h : m.Alike n) (h' : n.Alike p) : m.Alike p :=
  ⟨h.result.trans h'.result,h.items.trans h'.items⟩

theorem Alike.bind {m n : Emission α} {f g : α → Emission β} (h : m.Alike n)
    (hf : ∀ a, (f a).Alike (g a)) : (m >>= f).Alike (n >>= g) := by
  cases hm : m.result with
  | error e =>
    rw [bind_error hm, bind_error (h.result ▸ hm)]
    exact ⟨rfl,h.items⟩
  | ok a =>
    rw [bind_ok hm, bind_ok (h.result ▸ hm)]
    refine ⟨(hf a).result,?_⟩
    rw [List.filterMap_append, List.filterMap_append, h.items, (hf a).items]

theorem Alike.bind_left {m n : Emission α} {f : α → Emission β} (h : m.Alike n) :
    (m >>= f).Alike (n >>= f) := h.bind fun a => .refl (f a)

theorem Alike.bind_right {m : Emission α} {f g : α → Emission β} (h : ∀ a, (f a).Alike (g a)) :
    (m >>= f).Alike (m >>= g) := (refl m).bind h

/-- A place is nothing once places are forgotten. -/
theorem alike_origin (l l' : Option Location) : (origin l).Alike (origin l') := by
  refine ⟨rfl,?_⟩
  cases l <;> cases l' <;> rfl

theorem alike_problem (rule : Rule) (message : String) (l l' : Option Location) :
    (problem rule message l).Alike (problem rule message l') := ⟨rfl,rfl⟩

theorem Alike.each {f g : α → Emission Unit} {xs : List α} (h : ∀ x ∈ xs, (f x).Alike (g x)) :
    (each f xs).Alike (each g xs) := by
  induction xs with
  | nil => exact .refl _
  | cons x xs ih =>
    obtain ⟨hx,hxs⟩ := List.forall_mem_cons.mp h
    exact hx.bind fun _ => ih hxs

theorem Alike.function {m n : Emission Unit} (h : m.Alike n) (header : Header) :
    (function header m).Alike (function header n) := by
  refine ⟨h.result,?_⟩
  simp [Emission.function, List.filterMap_append, h.items, Item.strip]

theorem Alike.arm {m n : Emission Unit} (h : m.Alike n) (label : String) :
    (arm label m).Alike (arm label n) :=
  .bind_right fun _ => .bind_right fun _ => h.bind_left

theorem Alike.choice {m n : Emission Unit} (h : m.Alike n) (selector : String) :
    (choice selector m).Alike (choice selector n) :=
  .bind_right fun _ => h.bind_left

end alike

end Emission

end Cartridge.Code
