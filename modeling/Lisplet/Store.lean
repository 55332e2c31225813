import Lisplet.Value

/-!
Frames of bindings. A binding never replaces an older one: it goes in front of it, and a name
stands for its newest binding in the nearest frame that has one. Each frame leads outwards to a
frame made before it, or nowhere.
-/

set_option autoImplicit false

namespace Lisplet

/-- What an evaluator needs of the frames made so far, which are numbered from zero. -/
class FrameStore (σ : Type) where
  size : σ → Nat
  /-- What the frame itself binds a text to. -/
  entry? : σ → FrameId → String → Option Value
  outer? : σ → FrameId → Option FrameId
  bind : σ → FrameId → String → Value → σ
  /-- Adds a frame with these bindings, of which the last was made first. -/
  addFrame : σ → List (String × Value) → Option FrameId → σ

namespace FrameStore

variable {σ : Type} [FrameStore σ]

def find? (store : σ) (name : String) (frame : FrameId) : Option Value :=
  match entry? store frame name with
  | some v => some v
  | none =>
    match outer? store frame with
    | none => none
    | some outer => if outer < frame then find? store name outer else none
termination_by frame

/-- A name that nothing binds stands for itself. -/
def lookup (store : σ) (frame : FrameId) (name : Value) : Value :=
  match name.nameText? with
  | some text => (find? store text frame).getD name
  | none => name

end FrameStore

/-- Bindings, newest first, and the frame around this one. -/
structure Frame where
  bindings : List (String × Value)
  outer : Option FrameId
  deriving DecidableEq

structure Store where
  frames : Array Frame
  deriving DecidableEq

namespace Store

def empty : Store := ⟨#[]⟩

def newFrame (store : Store) (bindings : List (String × Value)) (outer : Option FrameId) :
    FrameId × Store :=
  (store.frames.size, ⟨store.frames.push ⟨bindings, outer⟩⟩)

def withGlobal : Store := (empty.newFrame [] none).2

abbrev globalFrame : FrameId := 0

def bindings (store : Store) (frame : FrameId) : List (String × Value) :=
  match store.frames[frame]? with
  | some f => f.bindings
  | none => []

def bind (store : Store) (frame : FrameId) (name : String) (value : Value) : Store :=
  ⟨store.frames.modify frame fun f => { f with bindings := (name, value) :: f.bindings }⟩

instance : FrameStore Store where
  size store := store.frames.size
  entry? store frame name := (store.bindings frame).lookup name
  outer? store frame := store.frames[frame]?.bind Frame.outer
  bind := bind
  addFrame store bindings outer := (store.newFrame bindings outer).2

def find? (store : Store) (name : String) (frame : FrameId) : Option Value :=
  FrameStore.find? store name frame

def lookup (store : Store) (frame : FrameId) (name : Value) : Value :=
  FrameStore.lookup store frame name

theorem find?_eq (store : Store) (name : String) (frame : FrameId) :
    store.find? name frame =
      match store.frames[frame]? with
      | none => none
      | some f =>
        match f.bindings.lookup name with
        | some v => some v
        | none =>
          match f.outer with
          | none => none
          | some outer => if outer < frame then store.find? name outer else none := by
  rw [find?, FrameStore.find?]
  cases hframe : store.frames[frame]? with
  | none => simp [FrameStore.entry?, FrameStore.outer?, bindings, hframe]
  | some f =>
    simp only [FrameStore.entry?, FrameStore.outer?, bindings, hframe, Option.bind_some]
    rfl

theorem lookup_eq (store : Store) (frame : FrameId) (name : Value) :
    store.lookup frame name =
      match name.nameText? with
      | some text => (store.find? text frame).getD name
      | none => name := rfl

end Store

/-- Binds names to values in order, each in front of those before. A name that is no symbol
stops it. -/
def bindAll (bindings : List (String × Value)) :
    List (Value × Value) → Except Value (List (String × Value))
  | [] => .ok bindings
  | (.symbol name, value) :: rest => bindAll ((name, value) :: bindings) rest
  | (name, _) :: _ => .error name

/-- Makes a frame that binds each name to the value in the same place, as far as both lists
go. No frame is made when a name is no symbol. -/
def Store.extend (store : Store) (names values : List Value) (outer : FrameId) :
    Except Value (FrameId × Store) :=
  match bindAll [] (names.zip values) with
  | .ok bindings => .ok (store.newFrame bindings (some outer))
  | .error name => .error name

def callBindings? (params arguments : List Value) :
    Option (Except Value (List (String × Value))) :=
  if params.length = arguments.length then some (bindAll [] (params.zip arguments)) else none

end Lisplet
