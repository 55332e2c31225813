import Mathlib.Data.Finmap
import Mathlib.Data.List.Forall2
import Lisplet.Proofs.ParametricEvaluation

/-!
Frames that overwrite. A frame keeps the bindings that newer ones hide, and no program can tell:
evaluation over frames that are finite maps, where a binding replaces the older one of its name,
gives the same results and the same failures, and the maps hold what the frames show.
-/

set_option autoImplicit false

namespace Lisplet

/-- Binding and adding a frame change what they say they change, and nothing else. -/
class LawfulFrameStore (σ : Type) [FrameStore σ] : Prop where
  size_bind (s : σ) (i : FrameId) (name : String) (v : Value) :
    FrameStore.size (FrameStore.bind s i name v) = FrameStore.size s
  outer?_bind (s : σ) (i : FrameId) (name : String) (v : Value) (j : FrameId) :
    FrameStore.outer? (FrameStore.bind s i name v) j = FrameStore.outer? s j
  entry?_bind (s : σ) (i : FrameId) (name : String) (v : Value) (j : FrameId) (other : String) :
    FrameStore.entry? (FrameStore.bind s i name v) j other =
      if j = i ∧ i < FrameStore.size s ∧ other = name then some v
      else FrameStore.entry? s j other
  size_addFrame (s : σ) (bindings : List (String × Value)) (outer : Option FrameId) :
    FrameStore.size (FrameStore.addFrame s bindings outer) = FrameStore.size s + 1
  outer?_addFrame (s : σ) (bindings : List (String × Value)) (outer : Option FrameId)
      (j : FrameId) :
    FrameStore.outer? (FrameStore.addFrame s bindings outer) j =
      if j = FrameStore.size s then outer else FrameStore.outer? s j
  entry?_addFrame (s : σ) (bindings : List (String × Value)) (outer : Option FrameId)
      (j : FrameId) (name : String) :
    FrameStore.entry? (FrameStore.addFrame s bindings outer) j name =
      if j = FrameStore.size s then bindings.lookup name else FrameStore.entry? s j name

namespace FrameStore

variable {σ τ : Type} [FrameStore σ] [FrameStore τ]

structure Agree (s : σ) (t : τ) : Prop where
  size : size s = size t
  outer? : ∀ i, outer? s i = outer? t i
  entry? : ∀ i name, entry? s i name = entry? t i name

namespace Agree

variable {s : σ} {t : τ}

theorem bind [LawfulFrameStore σ] [LawfulFrameStore τ] (h : Agree s t) (frame : FrameId)
    (name : String) (v : Value) :
    Agree (FrameStore.bind s frame name v) (FrameStore.bind t frame name v) where
  size := by rw [LawfulFrameStore.size_bind, LawfulFrameStore.size_bind, h.size]
  outer? i := by rw [LawfulFrameStore.outer?_bind, LawfulFrameStore.outer?_bind, h.outer?]
  entry? i other := by
    rw [LawfulFrameStore.entry?_bind, LawfulFrameStore.entry?_bind, h.size, h.entry?]

theorem addFrame [LawfulFrameStore σ] [LawfulFrameStore τ] (h : Agree s t)
    (bindings : List (String × Value)) (outer : Option FrameId) :
    Agree (FrameStore.addFrame s bindings outer) (FrameStore.addFrame t bindings outer) where
  size := by rw [LawfulFrameStore.size_addFrame, LawfulFrameStore.size_addFrame, h.size]
  outer? i := by
    rw [LawfulFrameStore.outer?_addFrame, LawfulFrameStore.outer?_addFrame, h.size, h.outer?]
  entry? i name := by
    rw [LawfulFrameStore.entry?_addFrame, LawfulFrameStore.entry?_addFrame, h.size, h.entry?]

end Agree

end FrameStore

namespace Evaluation

open FrameStore (Agree)

variable {σ τ α β : Type} [FrameStore σ] [FrameStore τ]

def Alike (m : Computation σ α) (n : Computation τ α) : Prop :=
  ∀ (s : σ) (t : τ), Agree s t → (m.run s).1 = (n.run t).1 ∧ Agree (m.run s).2 (n.run t).2

theorem alike_pure (a : α) : Alike (pure a : Computation σ α) (pure a : Computation τ α) :=
  fun _ _ h => ⟨rfl, h⟩

theorem alike_throw (failure : Failure) :
    Alike (throw failure : Computation σ α) (throw failure : Computation τ α) :=
  fun _ _ h => ⟨rfl, h⟩

theorem alike_bind {m : Computation σ α} {n : Computation τ α} {f : α → Computation σ β}
    {g : α → Computation τ β} (h : Alike m n) (hnext : ∀ a, Alike (f a) (g a)) :
    Alike (m >>= f) (n >>= g) := by
  intro s t hagree
  obtain ⟨hresult, hafter⟩ := h s t hagree
  rw [run_bind, run_bind]
  cases hm : m.run s with
  | mk result after =>
    cases hn : n.run t with
    | mk other afterwards =>
      rw [hm, hn] at hresult hafter
      subst hresult
      -- The results are the same, so both go on or both stop here.
      cases result with
      | ok a => exact hnext a _ _ hafter
      | error failure => exact ⟨rfl, hafter⟩

theorem alike_lookup (frame : FrameId) (name : Value) :
    Alike (lookup frame name : Computation σ Value) (lookup frame name : Computation τ Value) := by
  intro s t h
  refine ⟨?_, h⟩
  change Except.ok (FrameStore.lookup s frame name) = Except.ok (FrameStore.lookup t frame name)
  rw [FrameStore.lookup_congr h.entry? h.outer?]

variable [LawfulFrameStore σ] [LawfulFrameStore τ]

theorem parametric_alike (frame : FrameId) :
    Parametric frame fun (m : Computation σ _) (n : Computation τ _) => Alike m n where
  pure := alike_pure
  throw := alike_throw
  bind := alike_bind
  lookup := alike_lookup frame
  bindSymbol name value := fun _ _ h => ⟨rfl, h.bind frame name value⟩

theorem alike_newFrame (bindings : List (String × Value)) (outer : Option FrameId) :
    Alike
      (modifyGet fun s => (FrameStore.size s, FrameStore.addFrame s bindings outer) :
        Computation σ FrameId)
      (modifyGet fun t => (FrameStore.size t, FrameStore.addFrame t bindings outer) :
        Computation τ FrameId) := by
  intro s t h
  refine ⟨?_, h.addFrame bindings outer⟩
  change Except.ok (FrameStore.size s) = Except.ok (FrameStore.size t)
  rw [h.size]

theorem alike_evaluate (limit : Nat) (expr : Value) (frame : FrameId) :
    Alike (evaluate limit expr frame : Computation σ Value)
      (evaluate limit expr frame : Computation τ Value) := by
  induction limit generalizing expr frame with
  | zero => exact alike_throw .tooDeep
  | succ limit ih =>
    refine (parametric_alike frame).level (evaluate limit) (evaluate limit)
      (fun expr => ih expr frame) (fun params body captured arguments => ?_) expr
    exact (parametric_alike frame).applyTo params captured arguments
      (fun bindings => alike_newFrame bindings (some captured)) fun inner => ih body inner

end Evaluation

theorem getElem?_modify_eq_map {φ : Type} (frames : Array φ) (i j : Nat) (f : φ → φ) :
    (frames.modify i f)[j]? = frames[j]?.map fun frame => if j = i then f frame else frame := by
  rw [Array.getElem?_modify]
  by_cases h : i = j
  · simp [h]
  · simp [h, Ne.symm h]

theorem lookup_cons_eq_ite (entry : String × Value) (rest : List (String × Value))
    (name : String) : (entry :: rest).lookup name =
      if name = entry.1 then some entry.2 else rest.lookup name := by
  rw [List.lookup_cons]
  by_cases h : name = entry.1
  · simp [h]
  · simp [h, beq_eq_false_iff_ne.mpr h]

instance : LawfulFrameStore Store where
  size_bind _ _ _ _ := Array.size_modify
  outer?_bind s i name v j := by
    simp only [FrameStore.outer?, FrameStore.bind, Store.bind, getElem?_modify_eq_map]
    cases s.frames[j]? with
    | none => rfl
    | some f => by_cases h : j = i <;> simp [h]
  entry?_bind s i name v j other := by
    simp only [FrameStore.entry?, FrameStore.bind, FrameStore.size, Store.bind, Store.bindings,
      getElem?_modify_eq_map]
    by_cases hji : j = i
    · subst hji
      by_cases hlt : j < s.frames.size
      · simp [hlt, lookup_cons_eq_ite]
      · simp [hlt]
    · cases s.frames[j]? <;> simp [hji]
  size_addFrame s bindings outer := Array.size_push _
  outer?_addFrame s bindings outer j := by
    simp only [FrameStore.outer?, FrameStore.addFrame, FrameStore.size, Store.newFrame,
      Array.getElem?_push]
    split <;> rfl
  entry?_addFrame s bindings outer j name := by
    simp only [FrameStore.entry?, FrameStore.addFrame, FrameStore.size, Store.newFrame,
      Store.bindings, Array.getElem?_push]
    by_cases h : j = s.frames.size <;> simp [h]

/-- A frame in which each name has one binding. -/
structure MapFrame where
  entries : Finmap fun _ : String => Value
  outer : Option FrameId

structure MapStore where
  frames : Array MapFrame

namespace MapStore

def withGlobal : MapStore := ⟨#[⟨∅, none⟩]⟩

/-- A binding takes the place of the one that its name had. -/
def bindEntry (entry : String × Value) (entries : Finmap fun _ : String => Value) :
    Finmap fun _ : String => Value :=
  entries.insert entry.1 entry.2

theorem lookup_bindEntry (entry : String × Value) (entries : Finmap fun _ : String => Value)
    (name : String) : (bindEntry entry entries).lookup name =
      if name = entry.1 then some entry.2 else entries.lookup name := by
  unfold bindEntry
  split
  · next h => rw [h, Finmap.lookup_insert]
  · next h => rw [Finmap.lookup_insert_of_ne _ h]

theorem lookup_foldr_bindEntry (bindings : List (String × Value)) (name : String) :
    (bindings.foldr bindEntry ∅).lookup name = bindings.lookup name := by
  induction bindings with
  | nil => rfl
  | cons entry rest ih =>
    rw [List.foldr_cons, lookup_bindEntry, lookup_cons_eq_ite, ih]

instance : FrameStore MapStore where
  size store := store.frames.size
  entry? store frame name := store.frames[frame]?.bind fun f => f.entries.lookup name
  outer? store frame := store.frames[frame]?.bind MapFrame.outer
  bind store frame name value :=
    ⟨store.frames.modify frame fun f => { f with entries := bindEntry (name, value) f.entries }⟩
  addFrame store bindings outer := ⟨store.frames.push ⟨bindings.foldr bindEntry ∅, outer⟩⟩

instance : LawfulFrameStore MapStore where
  size_bind _ _ _ _ := Array.size_modify
  outer?_bind s i name v j := by
    simp only [FrameStore.outer?, FrameStore.bind, getElem?_modify_eq_map]
    cases s.frames[j]? with
    | none => rfl
    | some f => by_cases h : j = i <;> simp [h]
  entry?_bind s i name v j other := by
    simp only [FrameStore.entry?, FrameStore.bind, FrameStore.size, getElem?_modify_eq_map]
    by_cases hji : j = i
    · subst hji
      by_cases hlt : j < s.frames.size
      · simp [hlt, lookup_bindEntry]
      · simp [hlt]
    · cases s.frames[j]? <;> simp [hji]
  size_addFrame s bindings outer := Array.size_push _
  outer?_addFrame s bindings outer j := by
    simp only [FrameStore.outer?, FrameStore.addFrame, FrameStore.size, Array.getElem?_push]
    split <;> rfl
  entry?_addFrame s bindings outer j name := by
    simp only [FrameStore.entry?, FrameStore.addFrame, FrameStore.size, Array.getElem?_push]
    split
    · exact lookup_foldr_bindEntry bindings name
    · rfl

/-- The maps hold what the frames of the store show, each name's newest binding. -/
structure Shows (maps : MapStore) (store : Store) : Prop where
  size : maps.frames.size = store.frames.size
  frame : ∀ (i : Nat) (f : Frame) (g : MapFrame), store.frames[i]? = some f →
    maps.frames[i]? = some g →
    g.outer = f.outer ∧ ∀ name, g.entries.lookup name = f.bindings.lookup name

theorem shows_of_agree {store : Store} {maps : MapStore} (h : FrameStore.Agree store maps) :
    maps.Shows store where
  size := h.size.symm
  frame i f g hf hg := by
    have houter := h.outer? i
    simp only [FrameStore.outer?, hf, hg, Option.bind_some] at houter
    refine ⟨houter.symm, fun name => ?_⟩
    have hentry := h.entry? i name
    simp only [FrameStore.entry?, Store.bindings, hf, hg, Option.bind_some] at hentry
    exact hentry.symm

theorem agree_withGlobal : FrameStore.Agree Store.withGlobal withGlobal where
  size := rfl
  outer? i := by
    cases i <;> rfl
  entry? i name := by
    cases i <;> rfl

end MapStore

/-- The results of evaluating one after another, each with the store after it. -/
def outcomes {σ : Type} (run : Value → σ → Except Failure Value × σ) :
    List Value → σ → List (Except Failure Value × σ)
  | [], _ => []
  | expr :: rest, store => run expr store :: outcomes run rest (run expr store).2

/-- Frames that are maps and overwrite give the same results and failures one expression after
another, and hold after each what the frames show. -/
theorem overwriting_outcomes (limit : Nat) (exprs : List Value) :
    List.Forall₂ (fun kept overwritten => kept.1 = overwritten.1 ∧ overwritten.2.Shows kept.2)
      (outcomes (fun expr store => (evaluate limit expr Store.globalFrame).run store)
        exprs Store.withGlobal)
      (outcomes (fun expr maps => (evaluate limit expr Store.globalFrame).run maps)
        exprs MapStore.withGlobal) := by
  -- The induction is over any two stores that agree, as the first two do.
  have hagree := MapStore.agree_withGlobal
  generalize Store.withGlobal = store at hagree ⊢
  generalize MapStore.withGlobal = maps at hagree ⊢
  induction exprs generalizing store maps with
  | nil => exact .nil
  | cons expr rest ih =>
    have halike := Evaluation.alike_evaluate limit expr Store.globalFrame store maps hagree
    exact .cons ⟨halike.1, MapStore.shows_of_agree halike.2⟩ (ih _ _ halike.2)

end Lisplet
