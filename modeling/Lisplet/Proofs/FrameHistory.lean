import Lisplet.Proofs.EvaluationRun

/-!
The history of frames. Frames are made, inside one another or not, and names are bound in them, in
any order. Each frame holds just what was bound in it, and a name stands for what was last bound to
it in the nearest frame, from its own outwards, where it was bound at all, however late that was.
-/

set_option autoImplicit false

namespace Lisplet

inductive FrameOperation where
  | create (outer : Option FrameId)
  | bind (frame : FrameId) (name : String) (value : Value)
  | extend (outer : FrameId) (names : List String) (values : List Value)

def FrameOperation.Fits (size : Nat) : FrameOperation → Prop
  | .create outer => ∀ frame ∈ outer, frame < size
  | .bind frame _ _ => frame < size
  | .extend outer names values => outer < size ∧ names.length = values.length

def Store.perform (store : Store) : FrameOperation → Store
  | .create outer => (store.newFrame [] outer).2
  | .bind frame name value => store.bind frame name value
  | .extend outer names values =>
    match store.extend (names.map Value.symbol) values outer with
    | .ok (_, extended) => extended
    | .error _ => store

structure Binding where
  frame : FrameId
  name : String
  value : Value

/-- What was done: the frame around each frame, in the order in which they were made, and all
bindings in the order in which they were made. -/
structure History where
  outers : List (Option FrameId)
  bindings : List Binding

namespace History

def empty : History := ⟨[], []⟩

def record (history : History) : FrameOperation → History
  | .create outer => ⟨history.outers ++ [outer], history.bindings⟩
  | .bind frame name value => ⟨history.outers, history.bindings ++ [⟨frame, name, value⟩]⟩
  | .extend outer names values =>
    ⟨history.outers ++ [some outer], history.bindings ++
      (names.zip values).map fun entry => ⟨history.outers.length, entry.1, entry.2⟩⟩

def FitsAll (history : History) : List FrameOperation → Prop
  | [] => True
  | operation :: rest =>
    operation.Fits history.outers.length ∧ (history.record operation).FitsAll rest

/-- What was bound in a frame, newest first. -/
def entries (history : History) (frame : FrameId) : List (String × Value) :=
  ((history.bindings.filter (·.frame == frame)).map fun b => (b.name, b.value)).reverse

def NeverBinds (history : History) (frame : FrameId) (name : String) : Prop :=
  ∀ b ∈ history.bindings, ¬(b.frame = frame ∧ b.name = name)

/-- The last binding of a name in a frame has this value. -/
def LastBinds (history : History) (frame : FrameId) (name : String) (value : Value) : Prop :=
  ∃ before after, history.bindings = before ++ ⟨frame, name, value⟩ :: after ∧
    ∀ b ∈ after, ¬(b.frame = frame ∧ b.name = name)

/-- What a name stands for, from a frame outwards. -/
inductive Resolves (history : History) (name : String) : FrameId → Option Value → Prop
  | bound {frame : FrameId} {value : Value} (hlast : history.LastBinds frame name value) :
    Resolves history name frame (some value)
  | outward {frame outer : FrameId} {result : Option Value}
    (hnever : history.NeverBinds frame name) (houter : history.outers[frame]? = some (some outer))
    (hrest : Resolves history name outer result) : Resolves history name frame result
  | unbound {frame : FrameId} (hnever : history.NeverBinds frame name)
    (houter : history.outers[frame]? = some none) : Resolves history name frame none

theorem entries_append (outers outers' : List (Option FrameId)) (old new : List Binding)
    (frame : FrameId) : entries ⟨outers, old ++ new⟩ frame =
      entries ⟨outers', new⟩ frame ++ entries ⟨outers', old⟩ frame := by
  simp [entries]

theorem entries_map (outers : List (Option FrameId)) (made frame : FrameId)
    (pairs : List (String × Value)) :
    entries ⟨outers, pairs.map fun entry => ⟨made, entry.1, entry.2⟩⟩ frame =
      if frame = made then pairs.reverse else [] := by
  by_cases h : frame = made
  · simp [entries, List.filter_map, Function.comp_def, h]
  · simp [entries, List.filter_map, Function.comp_def, h, Ne.symm h]

theorem lookup_entries_of_never {history : History} {frame : FrameId} {name : String}
    (h : history.NeverBinds frame name) : (history.entries frame).lookup name = none := by
  rw [List.lookup_eq_none_iff]
  intro entry hentry
  simp only [entries, List.mem_reverse, List.mem_map, List.mem_filter, beq_iff_eq] at hentry
  obtain ⟨b, ⟨hb, hframe⟩, rfl⟩ := hentry
  exact bne_iff_ne.mpr fun hname => h b hb ⟨hframe, hname.symm⟩

theorem lookup_entries_of_last {history : History} {frame : FrameId} {name : String} {value : Value}
    (h : history.LastBinds frame name value) :
    (history.entries frame).lookup name = some value := by
  obtain ⟨before, after, hbindings, hafter⟩ := h
  have hnone : (entries ⟨history.outers, after⟩ frame).lookup name = none :=
    lookup_entries_of_never hafter
  rw [entries] at hnone
  simp [entries, hbindings, List.lookup_append, hnone]

theorem never_or_last (history : History) (frame : FrameId) (name : String) :
    history.NeverBinds frame name ∨ ∃ value, history.LastBinds frame name value := by
  cases hfind : history.bindings.reverse.find? fun b => b.frame == frame && b.name == name with
  | none =>
    left
    simpa [NeverBinds] using hfind
  | some b =>
    right
    obtain ⟨hb, after, before, hreverse, hafter⟩ := List.find?_eq_some_iff_append.mp hfind
    obtain ⟨frame', name', value⟩ := b
    simp only [Bool.and_eq_true, beq_iff_eq] at hb
    obtain ⟨rfl, rfl⟩ := hb
    refine ⟨value, before.reverse, after.reverse, ?_, ?_⟩
    · rw [← List.reverse_reverse history.bindings, hreverse]
      simp
    · rintro b hb ⟨hframe, hname⟩
      simpa [hframe, hname] using hafter b (List.mem_reverse.mp hb)

end History

namespace Store

theorem bindings_newFrame (store : Store) (bindings : List (String × Value))
    (outer : Option FrameId) (frame : FrameId) :
    (store.newFrame bindings outer).2.bindings frame =
      if frame = store.frames.size then bindings else store.bindings frame := by
  simp only [Store.bindings, newFrame, Array.getElem?_push]
  by_cases h : frame = store.frames.size
  · simp [h]
  · simp [h]

theorem bindings_bind {store : Store} {frame : FrameId} (h : frame < store.frames.size)
    (name : String) (value : Value) (other : FrameId) :
    (store.bind frame name value).bindings other =
      if other = frame then (name, value) :: store.bindings other else store.bindings other := by
  simp only [Store.bindings, Store.bind, Array.getElem?_modify]
  by_cases hother : other = frame
  · subst hother
    simp [h]
  · simp [hother, Ne.symm hother]

theorem bindings_of_size_le {store : Store} {frame : FrameId} (h : store.frames.size ≤ frame) :
    store.bindings frame = [] := by
  rw [Store.bindings, Array.getElem?_eq_none h]

theorem extend_symbols (store : Store) (names : List String) (values : List Value)
    (outer : FrameId) : store.extend (names.map Value.symbol) values outer =
      .ok (store.newFrame (names.zip values).reverse (some outer)) := by
  rw [extend, bindAll_symbol, List.append_nil]

/-- The frames hold what the history says, and each is inside a frame that was made before it. -/
structure Shows (store : Store) (history : History) : Prop where
  outers : store.frames.toList.map Frame.outer = history.outers
  entries : ∀ frame, store.bindings frame = history.entries frame
  nested : ∀ frame outer : FrameId, history.outers[frame]? = some (some outer) → outer < frame

section

variable {store : Store} {history : History} (h : store.Shows history)
include h

theorem Shows.size : store.frames.size = history.outers.length := by
  rw [← h.outers, List.length_map, Array.length_toList]

theorem Shows.newFrame {outer : Option FrameId}
    (houter : ∀ frame ∈ outer, frame < history.outers.length) (pairs : List (String × Value)) :
    (store.newFrame pairs.reverse outer).2.Shows
      ⟨history.outers ++ [outer], history.bindings ++
        pairs.map fun entry => ⟨history.outers.length, entry.1, entry.2⟩⟩ where
  outers := by simp [Store.newFrame, h.outers]
  entries frame := by
    rw [bindings_newFrame, h.size, History.entries_append _ history.outers, History.entries_map,
      ← h.entries frame]
    by_cases hframe : frame = history.outers.length
    · have hle := Nat.le_of_eq (h.size.trans hframe.symm)
      simp [hframe, bindings_of_size_le (hframe ▸ hle)]
    · simp [hframe]
  nested frame other hother := by
    rcases Nat.lt_or_ge frame history.outers.length with hlt | hge
    · rw [List.getElem?_append_left hlt] at hother
      exact h.nested frame other hother
    · rw [List.getElem?_append_right hge, List.getElem?_singleton] at hother
      split at hother
      · cases hother
        exact Nat.lt_of_lt_of_le (houter other rfl) hge
      · cases hother

theorem Shows.bind {frame : FrameId} (hframe : frame < history.outers.length) (name : String)
    (value : Value) : (store.bind frame name value).Shows
      ⟨history.outers, history.bindings ++ [⟨frame, name, value⟩]⟩ where
  outers := by
    rw [← h.outers]
    apply List.ext_getElem?
    intro i
    simp only [Store.bind, List.getElem?_map, Array.getElem?_toList, Array.getElem?_modify]
    split
    · cases store.frames[i]? <;> rfl
    · rfl
  entries other := by
    have hentry := History.entries_map history.outers frame other [(name, value)]
    rw [bindings_bind (h.size ▸ hframe), History.entries_append _ history.outers,
      ← h.entries other]
    rw [List.map_singleton] at hentry
    rw [hentry]
    by_cases hother : other = frame
    · simp [hother]
    · simp [hother]
  nested := h.nested

theorem Shows.perform {operation : FrameOperation} (hfits : operation.Fits history.outers.length) :
    (store.perform operation).Shows (history.record operation) := by
  cases operation with
  | create outer =>
    have hnew := h.newFrame hfits []
    rwa [List.map_nil, List.append_nil] at hnew
  | bind frame name value => exact h.bind hfits name value
  | extend outer names values =>
    have houter : ∀ frame ∈ some outer, frame < history.outers.length := by
      intro frame hframe
      cases hframe
      exact hfits.1
    have hnew : store.perform (.extend outer names values) =
        (store.newFrame (names.zip values).reverse (some outer)).2 := by
      rw [Store.perform, extend_symbols]
    rw [hnew]
    exact h.newFrame houter (names.zip values)

theorem Shows.performAll {operations : List FrameOperation} (hfits : history.FitsAll operations) :
    (operations.foldl Store.perform store).Shows (operations.foldl History.record history) := by
  induction operations generalizing store history with
  | nil => exact h
  | cons operation rest ih => exact ih (h.perform hfits.1) hfits.2

end

theorem shows_empty : Store.empty.Shows .empty where
  outers := rfl
  entries _ := rfl
  nested _ _ houter := nomatch houter

theorem find?_of_entry {store : Store} {frame : FrameId} {name : String} {value : Value}
    (h : (store.bindings frame).lookup name = some value) :
    store.find? name frame = some value := by
  rw [find?_eq]
  unfold Store.bindings at h
  split at h
  · next f hf =>
    rw [hf]
    simp only [h]
  · cases h

theorem find?_of_outer {store : Store} {frame : FrameId} {name : String} {f : Frame}
    (hf : store.frames[frame]? = some f) (h : (store.bindings frame).lookup name = none) :
    store.find? name frame =
      f.outer.bind fun outer => if outer < frame then store.find? name outer else none := by
  rw [find?_eq, hf]
  rw [Store.bindings, hf] at h
  simp only [h]
  cases f.outer <;> rfl

section

variable {store : Store} {history : History} (h : store.Shows history)
include h

theorem Shows.outer? (frame : FrameId) :
    store.frames[frame]?.map Frame.outer = history.outers[frame]? := by
  rw [← h.outers, List.getElem?_map, Array.getElem?_toList]

theorem Shows.find? {name : String} {frame : FrameId} {result : Option Value}
    (hresolves : history.Resolves name frame result) : store.find? name frame = result := by
  induction hresolves with
  | @bound frame value hlast =>
    apply find?_of_entry
    rw [h.entries frame]
    exact History.lookup_entries_of_last hlast
  | @outward frame outer result hnever houter _ ih =>
    have hnone := History.lookup_entries_of_never hnever
    rw [← h.entries frame] at hnone
    rw [← h.outer? frame, Option.map_eq_some_iff] at houter
    obtain ⟨f, hf, houter⟩ := houter
    have hlt := h.nested frame outer (by rw [← h.outer? frame, hf, Option.map_some, houter])
    rw [find?_of_outer hf hnone, houter, Option.bind_some, if_pos hlt, ih]
  | @unbound frame hnever houter =>
    have hnone := History.lookup_entries_of_never hnever
    rw [← h.entries frame] at hnone
    rw [← h.outer? frame, Option.map_eq_some_iff] at houter
    obtain ⟨f, hf, houter⟩ := houter
    rw [find?_of_outer hf hnone, houter, Option.bind_none]

theorem Shows.exists_resolves (name : String) {frame : FrameId}
    (hframe : frame < history.outers.length) :
    ∃ result, history.Resolves name frame result := by
  induction frame using Nat.strongRecOn with
  | ind frame ih =>
    rcases history.never_or_last frame name with hnever | ⟨value, hlast⟩
    · cases houter : history.outers[frame]? with
      | none => exact absurd hframe (Nat.not_lt_of_le (List.getElem?_eq_none_iff.mp houter))
      | some outer =>
        cases outer with
        | none => exact ⟨none, .unbound hnever houter⟩
        | some outer =>
          have hlt := h.nested frame outer houter
          obtain ⟨result, hrest⟩ := ih outer hlt (Nat.lt_trans hlt hframe)
          exact ⟨result, .outward hnever houter hrest⟩
    · exact ⟨some value, .bound hlast⟩

end

end Store

/-- After any operations, a frame holds what was bound in it, newest first, and a name stands for
what was last bound to it in the nearest frame that has bound it, or for itself. -/
theorem lookup_finds_last_binding (operations : List FrameOperation)
    (hfits : History.empty.FitsAll operations) (frame : FrameId) :
    let store := operations.foldl Store.perform .empty
    let history := operations.foldl History.record .empty
    frame < history.outers.length →
      store.bindings frame = history.entries frame ∧
      ∀ name, (∃ result, history.Resolves name frame result) ∧
        ∀ result, history.Resolves name frame result →
          store.lookup frame (.symbol name) = result.getD (.symbol name) := by
  intro store history hframe
  have hshows : store.Shows history := Store.shows_empty.performAll hfits
  refine ⟨hshows.entries frame, fun name => ⟨hshows.exists_resolves name hframe, ?_⟩⟩
  intro result hresolves
  rw [Store.lookup_eq, Value.nameText?]
  simp only [hshows.find? hresolves]

def FrameOperation.siblings : List FrameOperation :=
  [.create none, .extend 0 ["x", "y", "x"] [.long 1, .long 2, .long 3], .create (some 0),
   .bind 0 "z" (.long 4), .bind 2 "y" (.long 5), .bind 0 "z" (.long 6)]

theorem lookup_finds_last_binding_siblings :
    History.empty.FitsAll FrameOperation.siblings ∧
    let store := FrameOperation.siblings.foldl Store.perform .empty
    store.bindings 1 = [("x", .long 3), ("y", .long 2), ("x", .long 1)] ∧
    store.lookup 1 (.symbol "z") = .long 6 ∧ store.lookup 2 (.symbol "x") = .symbol "x" := by
  have hfits : History.empty.FitsAll FrameOperation.siblings := by
    simp [FrameOperation.siblings, History.FitsAll, FrameOperation.Fits, History.record,
      History.empty]
  obtain ⟨hbindings, hfirst⟩ :=
    lookup_finds_last_binding FrameOperation.siblings hfits 1 (by decide)
  obtain ⟨-, hsecond⟩ := lookup_finds_last_binding FrameOperation.siblings hfits 2 (by decide)
  refine ⟨hfits, hbindings, (hfirst "z").2 (some (.long 6)) ?_, (hsecond "x").2 none ?_⟩
  · refine .outward ?_ rfl (.bound ⟨_, [], rfl, nofun⟩)
    simp [History.NeverBinds, FrameOperation.siblings, History.record, History.empty]
  · refine .outward ?_ rfl (.unbound ?_ rfl) <;>
      simp [History.NeverBinds, FrameOperation.siblings, History.record, History.empty]

end Lisplet
