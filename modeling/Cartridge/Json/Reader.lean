import Cartridge.Json.Token

/-!
Reading a JSON text. The words are read one by one; the brackets not yet closed are kept as a
stack of frames, so nesting of any depth is read.
-/
namespace Cartridge.Json

/-- A bracket that is still open, with what it holds so far, last first. -/
inductive Frame where
  | items (done : List Json)
  | members (done : List (Option String × Json))
  | value (done : List (Option String × Json)) (key : Option String)

/-- What may come next. -/
inductive Phase where
  | value
  | itemOrClose
  | keyOrClose
  | key
  | colon
  | afterValue
  | finished (j : Json)

structure Reading where
  phase : Phase
  frames : List Frame

namespace Reading

def start : Reading := ⟨.value, []⟩

def deliver (j : Json) : List Frame → Option Reading
  | [] => some ⟨.finished j, []⟩
  | .items done :: frames => some ⟨.afterValue, .items (j :: done) :: frames⟩
  | .value done key :: frames => some ⟨.afterValue, .members ((key, j) :: done) :: frames⟩
  | .members _ :: _ => none

def beginValue (t : Token) (frames : List Frame) : Option Reading :=
  match t with
  | .null => deliver .null frames
  | .bool b => deliver (.bool b) frames
  | .num n => deliver (.num n) frames
  | .str s => deliver (.str s) frames
  | .openArr => some ⟨.itemOrClose, .items [] :: frames⟩
  | .openObj => some ⟨.keyOrClose, .members [] :: frames⟩
  | _ => none

def close (t : Token) (frames : List Frame) : Option Reading :=
  match t, frames with
  | .closeArr, .items done :: frames => deliver (.arr done.reverse) frames
  | .closeObj, .members done :: frames => deliver (.obj done.reverse) frames
  | _, _ => none

def step (r : Reading) (t : Token) : Option Reading :=
  match r.phase, t, r.frames with
  | .value, t, frames => beginValue t frames
  | .itemOrClose, .closeArr, frames => close .closeArr frames
  | .itemOrClose, t, frames => beginValue t frames
  | .keyOrClose, .closeObj, frames => close .closeObj frames
  | .keyOrClose, .str k, .members done :: frames => some ⟨.colon, .value done k :: frames⟩
  | .key, .str k, .members done :: frames => some ⟨.colon, .value done k :: frames⟩
  | .colon, .colon, frames => some ⟨.value, frames⟩
  | .afterValue, .comma, .items done :: frames => some ⟨.value, .items done :: frames⟩
  | .afterValue, .comma, .members done :: frames => some ⟨.key, .members done :: frames⟩
  | .afterValue, t, frames => close t frames
  | _, _, _ => none

def result? (r : Reading) : Option Json :=
  match r.phase with
  | .finished j => some j
  | _ => none

end Reading

def ofWords? (words : List Token) : Option Json :=
  (words.foldlM Reading.step Reading.start).bind Reading.result?

/-- The document a text spells, with nothing but blanks around it. -/
def parse? (text : String) : Option Json :=
  (words? text.toList).bind ofWords?

end Cartridge.Json
