import Lisplet.Proofs.EvaluationRun
import Lisplet.Proofs.SoundValue

/-!
Reach. From a frame one comes to the frame around it, and to the frames that the closures in its
bindings captured. A region of frames from which one comes to no frame outside is closed; what is
looked up from inside a closed region leads to no frame outside either, and stores that are the
same in the region show the same there.
-/

set_option autoImplicit false

namespace Lisplet

namespace Value

variable {region : FrameId → Prop}

/-- A closure that stands somewhere in the value captured the frame. -/
def Captures (v : Value) (frame : FrameId) : Prop :=
  ∃ params body, (closure params body frame).OccursIn v

def Within (region : FrameId → Prop) (v : Value) : Prop := ∀ i, v.Captures i → region i

theorem captures_pair {head tail : Value} {i : FrameId} :
    (pair head tail).Captures i ↔ head.Captures i ∨ tail.Captures i := by
  constructor
  · rintro ⟨params, body, h⟩
    cases h with
    | head _ h => exact .inl ⟨params, body, h⟩
    | tail _ h => exact .inr ⟨params, body, h⟩
  · rintro (⟨params, body, h⟩ | ⟨params, body, h⟩)
    · exact ⟨params, body, .head tail h⟩
    · exact ⟨params, body, .tail head h⟩

theorem captures_closure {params body : Value} {frame i : FrameId} :
    (closure params body frame).Captures i ↔ i = frame ∨ params.Captures i ∨ body.Captures i := by
  constructor
  · rintro ⟨inner, code, h⟩
    cases h with
    | self => exact .inl rfl
    | params _ _ h => exact .inr (.inl ⟨inner, code, h⟩)
    | body _ _ h => exact .inr (.inr ⟨inner, code, h⟩)
  · rintro (rfl | ⟨inner, code, h⟩ | ⟨inner, code, h⟩)
    · exact ⟨params, body, .self⟩
    · exact ⟨inner, code, .params body frame h⟩
    · exact ⟨inner, code, .body params frame h⟩

theorem within_pair {head tail : Value} :
    (pair head tail).Within region ↔ head.Within region ∧ tail.Within region := by
  simp only [Within, captures_pair, or_imp, forall_and]

theorem within_closure {params body : Value} {frame : FrameId} :
    (closure params body frame).Within region ↔
      region frame ∧ params.Within region ∧ body.Within region := by
  simp only [Within, captures_closure, or_imp, forall_and, forall_eq]

def capturedFrames : Value → List FrameId
  | .pair head tail => head.capturedFrames ++ tail.capturedFrames
  | .closure params body frame => frame :: (params.capturedFrames ++ body.capturedFrames)
  | _ => []

theorem captures_iff_mem {v : Value} {i : FrameId} : v.Captures i ↔ i ∈ v.capturedFrames := by
  induction v with
  | pair head tail hhead htail =>
    rw [captures_pair, hhead, htail, capturedFrames, List.mem_append]
  | closure params body frame hparams hbody =>
    rw [captures_closure, hparams, hbody, capturedFrames, List.mem_cons, List.mem_append]
  | _ =>
    constructor
    · rintro ⟨params, body, ⟨⟩⟩
    · rintro ⟨⟩

theorem Sound.within {p : Value → Prop} {v : Value} (h : v.Sound p 0) : v.Within region := by
  rintro i ⟨params, body, hoccurs⟩
  exact absurd (h.closure_of_occursIn hoccurs).2 (Nat.not_lt_zero i)

theorem atomRule_true : AtomRule fun _ => True := by constructor <;> intros <;> trivial

theorem within_sentinel (s : Sentinel) : s.value.Within region :=
  Sound.within (atomRule_true.sound_sentinel s)

theorem within_ofBool (b : Bool) : (ofBool b).Within region :=
  Sound.within (atomRule_true.sound_ofBool b)

theorem within_nil : Value.nil.Within region := within_ofBool false

namespace Within

variable {v : Value}

theorem car (h : v.Within region) : v.car.Within region := by
  cases v with
  | pair head tail => exact (within_pair.mp h).1
  | nil => exact h
  | _ => exact within_sentinel .notAPair

theorem cdr (h : v.Within region) : v.cdr.Within region := by
  cases v with
  | pair head tail => exact (within_pair.mp h).2
  | nil => exact h
  | _ => exact within_sentinel .notAPair

theorem cadr (h : v.Within region) : v.cadr.Within region := h.cdr.car

theorem caddr (h : v.Within region) : v.caddr.Within region := h.cdr.cdr.car

theorem unary (h : v.Within region) (operation : Unary) : (operation.apply v).Within region := by
  cases operation with
  | car => exact h.car
  | cdr => exact h.cdr
  | _ => exact within_ofBool _

theorem binary {a b : Value} (ha : a.Within region) (hb : b.Within region) (operation : Binary) :
    (operation.apply a b).Within region := by
  have rule := atomRule_true
  cases operation with
  | cons => exact within_pair.mpr ⟨ha, hb⟩
  | add | sub | mul => exact Sound.within (rule.sound_arithmetic _ a b)
  | div => exact Sound.within (rule.sound_div a b)
  | mod => exact Sound.within (rule.sound_mod a b)
  | lt | gt | lte | gte => exact Sound.within (rule.sound_comparison _ a b)
  | eq => exact Sound.within (rule.sound_eq a b)

end Within

end Value

theorem snd_mem_of_bindAll {bindings all : List (String × Value)} {pairs : List (Value × Value)}
    (h : bindAll bindings pairs = .ok all) {entry : String × Value} (hentry : entry ∈ all) :
    entry ∈ bindings ∨ entry.2 ∈ pairs.map Prod.snd := by
  fun_induction bindAll bindings pairs with
  | case1 =>
    cases h
    exact .inl hentry
  | case2 bindings name value rest ih =>
    rcases ih h with hold | hrest
    · rcases List.mem_cons.mp hold with rfl | hold
      · exact .inr (by simp)
      · exact .inl hold
    · exact .inr (by simp [hrest])
  | case3 => cases h

theorem snd_mem_of_callBindings? {params arguments : List Value}
    {bindings : List (String × Value)} (h : callBindings? params arguments = some (.ok bindings))
    {entry : String × Value} (hentry : entry ∈ bindings) : entry.2 ∈ arguments := by
  unfold callBindings? at h
  split at h
  · rcases snd_mem_of_bindAll (Option.some.inj h) hentry with hnil | hargument
    · cases hnil
    · obtain ⟨⟨name, value⟩, hmem, heq⟩ := List.mem_map.mp hargument
      exact heq ▸ (List.of_mem_zip hmem).2
  · cases h

namespace Store

/-- The frames that one comes to from the roots. -/
inductive Reaches (store : Store) (roots : FrameId → Prop) : FrameId → Prop
  | root {i : FrameId} (h : roots i) : Reaches store roots i
  | outwards {i outer : FrameId} {f : Frame} (h : Reaches store roots i)
    (hf : store.frames[i]? = some f) (houter : f.outer = some outer) : Reaches store roots outer
  | captured {i j : FrameId} {f : Frame} {entry : String × Value} (h : Reaches store roots i)
    (hf : store.frames[i]? = some f) (hentry : entry ∈ f.bindings)
    (hcaptured : entry.2.Captures j) : Reaches store roots j

structure Closed (store : Store) (region : FrameId → Prop) : Prop where
  outwards : ∀ {i outer : FrameId} {f : Frame}, region i → store.frames[i]? = some f →
    f.outer = some outer → region outer
  captured : ∀ {i : FrameId} {f : Frame}, region i → store.frames[i]? = some f →
    ∀ entry ∈ f.bindings, entry.2.Within region

variable {store s t : Store} {region roots : FrameId → Prop}

theorem Closed.of_reaches (h : store.Closed region) (hroots : ∀ i, roots i → region i)
    {i : FrameId} (hi : store.Reaches roots i) : region i := by
  induction hi with
  | root hroot => exact hroots _ hroot
  | outwards _ hf houter ih => exact h.outwards ih hf houter
  | captured _ hf hentry hcaptured ih => exact h.captured ih hf _ hentry _ hcaptured

theorem closed_reaches (store : Store) (roots : FrameId → Prop) :
    store.Closed fun i => store.Reaches roots i ∨ store.frames.size ≤ i where
  outwards := by
    rintro i outer f (hi | hi) hf houter
    · exact .inl (.outwards hi hf houter)
    · rw [Array.getElem?_eq_none hi] at hf
      cases hf
  captured := by
    rintro i f (hi | hi) hf entry hentry j hcaptured
    · exact .inl (.captured hi hf hentry hcaptured)
    · rw [Array.getElem?_eq_none hi] at hf
      cases hf

/-- Two stores of as many frames that are the same in a closed region. The frames that are still
to be made belong to it. -/
structure SameIn (region : FrameId → Prop) (s t : Store) : Prop where
  size : s.frames.size = t.frames.size
  frame : ∀ i, region i → s.frames[i]? = t.frames[i]?
  closed : s.Closed region
  fresh : ∀ i, s.frames.size ≤ i → region i

theorem SameIn.symm (h : SameIn region s t) : SameIn region t s where
  size := h.size.symm
  frame i hi := (h.frame i hi).symm
  closed :=
    { outwards := fun hi hf houter => h.closed.outwards hi (h.frame _ hi ▸ hf) houter
      captured := fun hi hf => h.closed.captured hi (h.frame _ hi ▸ hf) }
  fresh i hi := h.fresh i (h.size ▸ hi)

theorem SameIn.reaches (h : SameIn region s t) (hroots : ∀ i, roots i → region i) {i : FrameId}
    (hi : s.Reaches roots i) : t.Reaches roots i := by
  induction hi with
  | root hroot => exact .root hroot
  | outwards hreached hf houter ih =>
    exact .outwards ih (h.frame _ (h.closed.of_reaches hroots hreached) ▸ hf) houter
  | captured hreached hf hentry hcaptured ih =>
    exact .captured ih (h.frame _ (h.closed.of_reaches hroots hreached) ▸ hf) hentry hcaptured

theorem sameIn_of_reaches (hsize : s.frames.size = t.frames.size)
    (h : ∀ i, s.Reaches roots i → s.frames[i]? = t.frames[i]?) :
    SameIn (fun i => s.Reaches roots i ∨ s.frames.size ≤ i) s t where
  size := hsize
  frame := by
    rintro i (hi | hi)
    · exact h i hi
    · rw [Array.getElem?_eq_none hi, Array.getElem?_eq_none (hsize ▸ hi)]
  closed := closed_reaches s roots
  fresh i hi := .inr hi

namespace SameIn

theorem find? (h : SameIn region s t) (name : String) {frame : FrameId} (hframe : region frame) :
    s.find? name frame = t.find? name frame ∧
      ∀ v, s.find? name frame = some v → v.Within region := by
  -- The walk outwards stays in the region.
  induction frame using Store.find?_induction s name with
  | absent frame hf hnone =>
    rw [hnone, Store.find?_eq, ← h.frame frame hframe, hf]
    exact ⟨rfl, by simp⟩
  | found frame f v hf hbound hfound =>
    rw [hfound, Store.find?_eq, ← h.frame frame hframe, hf]
    simp only [hbound, true_and]
    rintro w ⟨⟩
    obtain ⟨before, rest, heq, -⟩ := List.lookup_eq_some_iff.mp hbound
    exact h.closed.captured hframe hf (name, v) (by simp [heq])
  | ended frame f hf hfree houter hnone =>
    rw [hnone, Store.find?_eq, ← h.frame frame hframe, hf]
    simp [hfree, houter]
  | outwards frame f outer hf hfree houter hlt hsame ih =>
    rw [hsame, Store.find?_eq t, ← h.frame frame hframe, hf]
    simp only [hfree, houter, hlt, if_true]
    exact ih (h.closed.outwards hframe hf houter)
  | malformed frame f outer hf hfree houter hlt hnone =>
    rw [hnone, Store.find?_eq, ← h.frame frame hframe, hf]
    simp [hfree, houter, hlt]

theorem lookup (h : SameIn region s t) {frame : FrameId} (hframe : region frame) {name : Value}
    (hname : name.Within region) : s.lookup frame name = t.lookup frame name ∧
      (s.lookup frame name).Within region := by
  rw [Store.lookup_eq, Store.lookup_eq]
  cases name.nameText? with
  | none => exact ⟨rfl, hname⟩
  | some text =>
    obtain ⟨heq, hwithin⟩ := h.find? text hframe
    refine ⟨by simp only [heq], ?_⟩
    dsimp only
    cases hfound : s.find? text frame with
    | none => exact hname
    | some v => exact hwithin v hfound

theorem bind (h : SameIn region s t) (frame : FrameId) (name : String) {value : Value}
    (hvalue : value.Within region) :
    SameIn region (s.bind frame name value) (t.bind frame name value) := by
  constructor
  · simpa [Store.bind] using h.size
  · intro i hi
    simp only [Store.bind, Array.getElem?_modify, h.frame i hi]
  · constructor
    · intro i outer f hi hf houter
      obtain ⟨g, hg, heq, -⟩ := frame_of_bind hf
      exact h.closed.outwards hi hg (heq ▸ houter)
    · intro i f hi hf entry hentry
      obtain ⟨g, hg, -, hentries⟩ := frame_of_bind hf
      rcases hentries entry hentry with rfl | hold
      · exact hvalue
      · exact h.closed.captured hi hg entry hold
  · intro i hi
    exact h.fresh i (by simpa [Store.bind] using hi)

theorem newFrame (h : SameIn region s t) {bindings : List (String × Value)}
    (hbindings : ∀ entry ∈ bindings, entry.2.Within region) {outer : FrameId}
    (houter : region outer) : SameIn region (s.newFrame bindings (some outer)).2
      (t.newFrame bindings (some outer)).2 := by
  constructor
  · simpa [Store.newFrame] using h.size
  · intro i hi
    simp only [Store.newFrame, Array.getElem?_push, h.size, h.frame i hi]
  · constructor
    · intro i inner f hi hf hinner
      rcases frame_of_newFrame hf with hold | ⟨-, rfl⟩
      · exact h.closed.outwards hi hold hinner
      · cases hinner
        exact houter
    · intro i f hi hf entry hentry
      rcases frame_of_newFrame hf with hold | ⟨-, rfl⟩
      · exact h.closed.captured hi hold entry hentry
      · exact hbindings entry hentry
  · intro i hi
    refine h.fresh i ?_
    simp only [Store.newFrame, Array.size_push] at hi
    omega

end SameIn

end Store

end Lisplet
