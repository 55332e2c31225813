import Lisplet.Proofs.EvaluationRun
import Lisplet.Proofs.SoundValue

/-!
Sound stores. In a sound store the values that names stand for are sound and each frame leads
outwards to an older one. Evaluation keeps a store sound, gives sound values, and can fail only by
nesting too deep.
-/

set_option autoImplicit false

namespace Lisplet

variable {p : Value → Prop}

/-- All values in the store are sound, and every outer frame is older than the frame it is
around. -/
structure Store.Sound (p : Value → Prop) (store : Store) : Prop where
  values : ∀ {i : FrameId} {f : Frame}, store.frames[i]? = some f →
    ∀ entry ∈ f.bindings, entry.2.Sound p store.frames.size
  outer_lt : ∀ {i outer : FrameId} {f : Frame}, store.frames[i]? = some f →
    f.outer = some outer → outer < i

namespace Store.Sound

variable {store : Store}

theorem withGlobal : Store.withGlobal.Sound p where
  values := by
    intro i f hf entry hentry
    cases i with
    | zero =>
      cases hf
      cases hentry
    | succ i => cases hf
  outer_lt := by
    intro i outer f hf houter
    cases i with
    | zero =>
      cases hf
      cases houter
    | succ i => cases hf

theorem of_mem_bindings (h : store.Sound p) {frame : FrameId} {name : String} {v : Value}
    (hmem : (name, v) ∈ store.bindings frame) : v.Sound p store.frames.size := by
  unfold Store.bindings at hmem
  split at hmem
  · rename_i hf
    exact h.values hf (name, v) hmem
  · cases hmem

theorem find? (h : store.Sound p) {name : String} {frame : FrameId} {v : Value}
    (hfind : store.find? name frame = some v) : v.Sound p store.frames.size := by
  obtain ⟨i, f, hf, hmem⟩ := exists_entry_of_find? hfind
  exact h.values hf (name, v) hmem

theorem lookup (h : store.Sound p) {name : Value} (hname : name.Sound p store.frames.size)
    (frame : FrameId) : (store.lookup frame name).Sound p store.frames.size := by
  rw [Store.lookup_eq]
  split
  · rename_i text _
    cases hfind : store.find? text frame with
    | none => exact hname
    | some v => exact h.find? hfind
  · exact hname

theorem size_bind (store : Store) (frame : FrameId) (name : String) (value : Value) :
    (store.bind frame name value).frames.size = store.frames.size := by
  simp [Store.bind]

theorem bind (h : store.Sound p) {value : Value} (hvalue : value.Sound p store.frames.size)
    (frame : FrameId) (name : String) : (store.bind frame name value).Sound p := by
  constructor
  · intro i f hf entry hentry
    rw [size_bind]
    obtain ⟨g, hg, -, hentries⟩ := frame_of_bind hf
    rcases hentries entry hentry with rfl | hold
    · exact hvalue
    · exact h.values hg entry hold
  · intro i outer f hf houter
    obtain ⟨g, hg, heq, -⟩ := frame_of_bind hf
    exact h.outer_lt hg (heq ▸ houter)

theorem newFrame (h : store.Sound p) {bindings : List (String × Value)}
    (hbindings : ∀ entry ∈ bindings, entry.2.Sound p store.frames.size) {outer : FrameId}
    (houter : outer < store.frames.size) : (store.newFrame bindings (some outer)).2.Sound p := by
  have hle : store.frames.size ≤ (store.newFrame bindings (some outer)).2.frames.size := by
    simp [Store.newFrame]
  constructor
  · intro i f hf entry hentry
    rcases frame_of_newFrame hf with hold | ⟨-, rfl⟩
    · exact (h.values hold entry hentry).mono hle
    · exact (hbindings entry hentry).mono hle
  · intro i inner f hf hinner
    rcases frame_of_newFrame hf with hold | ⟨rfl, rfl⟩
    · exact h.outer_lt hold hinner
    · cases hinner
      exact houter

end Store.Sound

section Computation

variable {σ α β : Type}

/-- How a run ends: with a sound store that has no fewer frames, and with a result of this kind or
an allowed failure. -/
structure Keeps (store : σ → Store) (p : Value → Prop) (allowed : Failure → Prop)
    (q : Nat → α → Prop) (before : σ) (run : Except Failure α × σ) : Prop where
  sound : (store run.2).Sound p
  size_le : (store before).frames.size ≤ (store run.2).frames.size
  result : ∀ {a : α}, run.1 = .ok a → q (store run.2).frames.size a
  failure : ∀ {failure : Failure}, run.1 = .error failure → allowed failure

def Safe (store : σ → Store) (p : Value → Prop) (allowed : Failure → Prop) (size : Nat)
    (q : Nat → α → Prop) (m : Computation σ α) : Prop :=
  ∀ state, (store state).Sound p → size ≤ (store state).frames.size →
    Keeps store p allowed q state (m.run state)

namespace Safe

variable {store : σ → Store} {allowed : Failure → Prop} {size : Nat} {q : Nat → α → Prop}
  {r : Nat → β → Prop}

theorem pure {a : α} (h : ∀ n, size ≤ n → q n a) :
    Safe store p allowed size q (Pure.pure a : Computation σ α) := fun _ hstate hle =>
  { sound := hstate
    size_le := Nat.le_refl _
    result := by
      rintro b ⟨⟩
      exact h _ hle
    failure := by
      rintro failure ⟨⟩ }

theorem throw {failure : Failure} (h : allowed failure) :
    Safe store p allowed size q (MonadExcept.throw failure : Computation σ α) :=
  fun _ hstate _ =>
  { sound := hstate
    size_le := Nat.le_refl _
    result := by
      rintro b ⟨⟩
    failure := by
      rintro failure ⟨⟩
      exact h }

theorem bind {m : Computation σ α} {next : α → Computation σ β}
    (hm : Safe store p allowed size q m)
    (hnext : ∀ a n, size ≤ n → q n a → Safe store p allowed n r (next a)) :
    Safe store p allowed size r (m >>= next) := by
  intro state hstate hle
  have hfirst := hm state hstate hle
  rw [run_bind]
  cases hrun : m.run state with
  | mk outcome after =>
    rw [hrun] at hfirst
    cases outcome with
    | error failure =>
      exact ⟨hfirst.sound, hfirst.size_le, by rintro b ⟨⟩, by
        rintro failure ⟨⟩
        exact hfirst.failure rfl⟩
    | ok a =>
      have hlast := hnext a _ (Nat.le_trans hle hfirst.size_le) (hfirst.result rfl) after
        hfirst.sound (Nat.le_refl _)
      exact ⟨hlast.sound, Nat.le_trans hfirst.size_le hlast.size_le, hlast.result, hlast.failure⟩

theorem ite {c : Prop} [Decidable c] {m n : Computation σ α}
    (hm : Safe store p allowed size q m) (hn : Safe store p allowed size q n) :
    Safe store p allowed size q (if c then m else n) := by
  split
  · exact hm
  · exact hn

end Safe

end Computation

namespace Evaluation

variable {size : Nat} {α : Type} {evaluate : Evaluator}

/-- Evaluations may fail by nesting too deep, and in no other way. -/
abbrev SafeIn (p : Value → Prop) (size : Nat) (q : Nat → α → Prop) (m : Evaluation α) : Prop :=
  Safe id p (· = .tooDeep) size q m

def SafeEvaluator (p : Value → Prop) (evaluate : Evaluator) : Prop :=
  ∀ {size : Nat} {expr : Value} {frame : FrameId}, expr.Sound p size → frame < size →
    SafeIn p size (Value.Sound p) (evaluate expr frame)

theorem safe_value {v : Value} (h : v.Sound p size) :
    SafeIn p size (Value.Sound p) (pure v) := .pure fun _ hle => h.mono hle

theorem safe_lookup {name : Value} (h : name.Sound p size) (frame : FrameId) :
    SafeIn p size (Value.Sound p) (lookup frame name) := fun _ hstore hle =>
  { sound := hstore
    size_le := Nat.le_refl _
    result := by
      rintro v ⟨⟩
      exact hstore.lookup (h.mono hle) frame
    failure := by
      rintro failure ⟨⟩ }

theorem safe_bind {name value : Value} (hname : name.isSymbol = true)
    (h : value.Sound p size) (frame : FrameId) :
    SafeIn p size (Value.Sound p) (Evaluation.bind frame name value) := by
  intro store hstore hle
  cases name with
  | symbol text =>
    have hvalue := h.mono hle
    rw [run_bind_symbol]
    refine ⟨hstore.bind hvalue frame text, ?_, ?_, ?_⟩
    · exact Nat.le_of_eq (Store.Sound.size_bind store frame text value).symm
    · rintro v ⟨⟩
      rwa [id, Store.Sound.size_bind]
    · rintro failure ⟨⟩
  | _ => cases hname

theorem callBindings?_cases {params : Value} {arguments : List Value}
    (hparams : params.isParameterList = true) (h : ∀ v ∈ arguments, v.Sound p size) :
    callBindings? params.toList arguments = none ∨
      ∃ bindings, callBindings? params.toList arguments = some (.ok bindings) ∧
        ∀ entry ∈ bindings, entry.2.Sound p size := by
  obtain ⟨names, rfl⟩ := Value.isParameterList_iff.mp hparams
  rw [Value.toList_ofList, callBindings?_symbol]
  split
  · refine .inr ⟨_, rfl, fun entry hentry => h _ ?_⟩
    exact (List.of_mem_zip (List.mem_reverse.mp hentry)).2
  · exact .inl rfl

theorem safe_each (h : SafeEvaluator p evaluate) {operands : Value} {frame : FrameId}
    (hoperands : operands.Sound p size) (hframe : frame < size) :
    SafeIn p size (fun n values => ∀ v ∈ values, v.Sound p n) (each evaluate frame operands) := by
  induction operands generalizing size with
  | pair head tail _ ih =>
    refine .bind (h hoperands.1 hframe) fun value n hn hvalue => ?_
    have hrest := ih (hoperands.2.mono hn) (Nat.lt_of_lt_of_le hframe hn)
    refine .bind hrest fun values m hm hvalues => ?_
    refine .pure fun k hk v hv => ?_
    rcases List.mem_cons.mp hv with rfl | hv
    · exact hvalue.mono (Nat.le_trans hm hk)
    · exact (hvalues v hv).mono hk
  | _ => exact .pure fun n hn v hv => by cases hv

variable (rule : Value.AtomRule p)
include rule

theorem safe_makeClosure {params body : Value} {frame : FrameId} (hparams : params.Sound p size)
    (hbody : body.Sound p size) (hframe : frame < size) :
    (makeClosure params body frame).Sound p size := by
  unfold makeClosure
  split
  · rename_i hlist
    exact ⟨hlist, hframe, hparams, hbody⟩
  · exact rule.sound_sentinel .notASymbol

theorem safe_clauses (h : SafeEvaluator p evaluate) {operands : Value} {frame : FrameId}
    (hoperands : operands.Sound p size) (hframe : frame < size) :
    SafeIn p size (Value.Sound p) (clauses evaluate frame operands) := by
  induction operands generalizing size with
  | pair clause rest _ ih =>
    refine .bind (h (rule.sound_car hoperands.1) hframe) fun test n hn _ => ?_
    have hframe' := Nat.lt_of_lt_of_le hframe hn
    exact .ite (ih (hoperands.2.mono hn) hframe')
      (h (rule.sound_cadr (hoperands.1.mono hn)) hframe')
  | _ => exact safe_value (rule.sound_sentinel .noBranchMatched)

theorem safe_runSet (h : SafeEvaluator p evaluate) {operands : Value} {frame : FrameId}
    (hoperands : operands.Sound p size) (hframe : frame < size) :
    SafeIn p size (Value.Sound p) (runSet evaluate frame operands) := by
  unfold runSet
  split
  · rename_i hsymbol
    exact .bind (h (rule.sound_cadr hoperands) hframe) fun value n _ hvalue =>
      safe_bind hsymbol hvalue frame
  · exact safe_value (rule.sound_sentinel .notASymbol)

theorem safe_runDefine (h : SafeEvaluator p evaluate) {operands : Value} {frame : FrameId}
    (hoperands : operands.Sound p size) (hframe : frame < size) :
    SafeIn p size (Value.Sound p) (runDefine evaluate frame operands) := by
  have hname := rule.sound_car hoperands
  have hsentinel : SafeIn p size (Value.Sound p) (pure Sentinel.notASymbol.value) :=
    safe_value (rule.sound_sentinel .notASymbol)
  unfold runDefine
  dsimp only
  split
  · exact hsentinel
  · rename_i hsymbol
    have hsymbol' : operands.car.isSymbol = true := by simpa using hsymbol
    split
    · refine .bind (h (rule.sound_cadr hoperands) hframe) fun value n hn hvalue => ?_
      exact .bind (safe_bind hsymbol' hvalue frame) fun _ m hm _ =>
        safe_value (hname.mono (Nat.le_trans hn hm))
    · split
      · rename_i hlist
        have hclosure : (Value.closure operands.cadr operands.caddr frame).Sound p size :=
          ⟨hlist, hframe, rule.sound_cadr hoperands, rule.sound_caddr hoperands⟩
        exact .bind (safe_bind hsymbol' hclosure frame) fun _ m hm _ => safe_value (hname.mono hm)
      · exact hsentinel

theorem safe_runForm (h : SafeEvaluator p evaluate) {operands : Value} {frame : FrameId}
    (hoperands : operands.Sound p size) (hframe : frame < size) (form : Form) :
    SafeIn p size (Value.Sound p) (runForm evaluate frame operands form) := by
  have hfirst := h (rule.sound_car hoperands) hframe
  have hsecond : ∀ {n : Nat}, size ≤ n →
      SafeIn p n (Value.Sound p) (evaluate operands.cadr frame) := fun hn =>
    h (rule.sound_cadr (hoperands.mono hn)) (Nat.lt_of_lt_of_le hframe hn)
  cases form with
  | quote => exact safe_value (rule.sound_car hoperands)
  | set => exact safe_runSet rule h hoperands hframe
  | define => exact safe_runDefine rule h hoperands hframe
  | lambda =>
    exact safe_value
      (safe_makeClosure rule (rule.sound_car hoperands) (rule.sound_cadr hoperands) hframe)
  | and => exact .bind hfirst fun test n hn _ => .ite (safe_value rule.nil) (hsecond hn)
  | or => exact .bind hfirst fun test n hn _ => .ite (hsecond hn) (safe_value rule.truth)
  | «if» =>
    exact .bind hfirst fun test n hn _ =>
      .ite (h (rule.sound_caddr (hoperands.mono hn)) (Nat.lt_of_lt_of_le hframe hn)) (hsecond hn)
  | cond => exact safe_clauses rule h hoperands hframe
  | unary operation =>
    exact .bind hfirst fun value n _ hvalue => safe_value (rule.sound_unary operation hvalue)
  | binary operation =>
    refine .bind hfirst fun first n hn hvalue => ?_
    exact .bind (hsecond hn) fun second m hm hvalue' =>
      safe_value (rule.sound_binary operation (hvalue.mono hm) hvalue')

theorem safe_applyTo (h : SafeEvaluator p evaluate) {params body : Value} {captured : FrameId}
    {arguments : List Value} (hclosure : (Value.closure params body captured).Sound p size)
    (harguments : ∀ v ∈ arguments, v.Sound p size) :
    SafeIn p size (Value.Sound p) (applyTo evaluate params body captured arguments) := by
  obtain ⟨hparams, hcaptured, -, hbody⟩ := hclosure
  intro store hstore hle
  rw [run_applyTo]
  rcases callBindings?_cases hparams (fun v hv => (harguments v hv).mono hle) with
    hnone | ⟨bindings, hsome, hbindings⟩
  · rw [hnone]
    exact safe_value (rule.sound_sentinel .arityMismatch) store hstore hle
  · rw [hsome]
    have hmade := hstore.newFrame hbindings (Nat.lt_of_lt_of_le hcaptured hle)
    have hlt : store.frames.size < (store.newFrame bindings (some captured)).2.frames.size := by
      simp [Store.newFrame]
    have hgrown := Nat.le_of_lt hlt
    have hrun := h (hbody.mono (Nat.le_trans hle hgrown)) hlt _ hmade (Nat.le_refl _)
    exact ⟨hrun.sound, Nat.le_trans hgrown hrun.size_le, hrun.result, hrun.failure⟩

theorem safe_call (h : SafeEvaluator p evaluate) {params body operands : Value}
    {frame captured : FrameId} (hclosure : (Value.closure params body captured).Sound p size)
    (hoperands : operands.Sound p size) (hframe : frame < size) :
    SafeIn p size (Value.Sound p) (call evaluate frame params body captured operands) := by
  rw [call_eq]
  exact .bind (safe_each h hoperands hframe) fun arguments n hn harguments =>
    safe_applyTo rule h (hclosure.mono hn) harguments

theorem safe_level (h : SafeEvaluator p evaluate) : SafeEvaluator p (level evaluate) := by
  intro size expr frame hexpr hframe
  cases expr with
  | symbol name => exact safe_lookup hexpr frame
  | pair head operands =>
    unfold level
    dsimp only
    cases Form.ofHead? head with
    | some form => exact safe_runForm rule h hexpr.2 hframe form
    | none =>
      refine .bind (h hexpr.1 hframe) fun operator n hn hoperator => ?_
      cases operator with
      | closure params body captured =>
        exact safe_call rule h hoperator (hexpr.2.mono hn) (Nat.lt_of_lt_of_le hframe hn)
      | _ => exact safe_value (hexpr.mono hn)
  | _ => exact safe_value hexpr

end Evaluation

/-- At every limit, evaluation in a frame of a sound store leaves it sound, gives a sound value,
and fails only by nesting too deep. -/
theorem safeEvaluator_evaluate (rule : Value.AtomRule p) (limit : Nat) :
    Evaluation.SafeEvaluator p (evaluate limit) := by
  induction limit with
  | zero => exact fun _ _ => .throw rfl
  | succ limit ih => exact Evaluation.safe_level rule ih

end Lisplet
