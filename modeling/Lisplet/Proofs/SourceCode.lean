import Lisplet.Proofs.EvaluationTasks
import Lisplet.Proofs.Reach
import Lisplet.Proofs.SourceParts

/-!
Code comes from the sources. While a part of a source is evaluated, only parts of sources are
evaluated, whatever the values are that are bound and given, and each closure that is made has
its parameters and its body from there.
-/

set_option autoImplicit false

namespace Lisplet

variable {sources : List Value}

namespace Store

def MadeFrom (sources : List Value) (store : Store) : Prop :=
  ∀ (i : FrameId) (f : Frame), store.frames[i]? = some f →
    ∀ entry ∈ f.bindings, entry.2.MadeFrom sources

namespace MadeFrom

variable {store : Store}

theorem mono {more : List Value} (h : store.MadeFrom sources) (hsub : sources ⊆ more) :
    store.MadeFrom more := fun i f hf entry hentry => (h i f hf entry hentry).mono hsub

theorem lookup (h : store.MadeFrom sources) (frame : FrameId) {name : Value}
    (hname : name.MadeFrom sources) : (store.lookup frame name).MadeFrom sources := by
  rw [Store.lookup_eq]
  split
  · rename_i text _
    cases hfind : store.find? text frame with
    | none => exact hname
    | some v =>
      obtain ⟨i, f, hf, hmem⟩ := exists_entry_of_find? hfind
      exact h i f hf (text, v) hmem
  · exact hname

theorem bind (h : store.MadeFrom sources) (frame : FrameId) (name : String) {value : Value}
    (hvalue : value.MadeFrom sources) : (store.bind frame name value).MadeFrom sources := by
  intro i f hf entry hentry
  obtain ⟨g, hg, -, hentries⟩ := frame_of_bind hf
  rcases hentries entry hentry with rfl | hold
  · exact hvalue
  · exact h i g hg entry hold

theorem newFrame (h : store.MadeFrom sources) {bindings : List (String × Value)}
    (hbindings : ∀ entry ∈ bindings, entry.2.MadeFrom sources) (outer : Option FrameId) :
    (store.newFrame bindings outer).2.MadeFrom sources := by
  intro i f hf entry hentry
  rcases frame_of_newFrame hf with hold | ⟨-, rfl⟩
  · exact h i f hold entry hentry
  · exact hbindings entry hentry

theorem withGlobal : Store.withGlobal.MadeFrom sources := by
  intro i f hf entry hentry
  cases i with
  | zero =>
    cases hf
    cases hentry
  | succ i => cases hf

end MadeFrom

end Store

theorem Form.eq_of_ofHead?_cond {head : Value} (h : Form.ofHead? head = some .cond) :
    head = .symbol "cond" := by
  cases head with
  | symbol name =>
    obtain ⟨entries, rest, heq, -⟩ := List.lookup_eq_some_iff.mp h
    have hmem : (name, Form.cond) ∈ Form.table := by simp [heq]
    simpa [Form.table] using hmem
  | _ => cases h

namespace Evaluation

structure Task.FromSources (sources : List Value) (task : Task) : Prop where
  expr : task.expr.IsCode sources
  store : task.store.MadeFrom sources

structure Sourced (sources : List Value) (s : TaskedStore) : Prop where
  store : s.store.MadeFrom sources
  tasks : ∀ task ∈ s.tasks, task.FromSources sources

variable {α β : Type} {q : α → Prop} {r : β → Prop}

/-- However the computation ends, it adds only such tasks and values, and what it gives is of this
kind. -/
def KeepsSourced (sources : List Value) (q : α → Prop) (m : Computation TaskedStore α) : Prop :=
  ∀ s, Sourced sources s →
    Sourced sources (m.run s).2 ∧ ∀ a, (m.run s).1 = .ok a → q a

namespace KeepsSourced

theorem pure {a : α} (h : q a) : KeepsSourced sources q (Pure.pure a) := by
  refine fun s hs => ⟨hs, ?_⟩
  rintro b ⟨⟩
  exact h

theorem throw (failure : Failure) : KeepsSourced sources q (MonadExcept.throw failure) := by
  refine fun s hs => ⟨hs, ?_⟩
  rintro b ⟨⟩

theorem bind {m : Computation TaskedStore α} {next : α → Computation TaskedStore β}
    (hm : KeepsSourced sources q m) (hnext : ∀ a, q a → KeepsSourced sources r (next a)) :
    KeepsSourced sources r (m >>= next) := by
  intro s hs
  obtain ⟨hafter, hvalue⟩ := hm s hs
  rw [run_bind]
  rcases hrun : m.run s with ⟨result, after⟩
  rw [hrun] at hafter hvalue
  cases result with
  | error failure => exact ⟨hafter, by rintro b ⟨⟩⟩
  | ok a => exact hnext a (hvalue a rfl) after hafter

theorem ite {c : Prop} [Decidable c] {m n : Computation TaskedStore α}
    (hm : KeepsSourced sources q m) (hn : KeepsSourced sources q n) :
    KeepsSourced sources q (if c then m else n) := by
  split
  · exact hm
  · exact hn

theorem lookup (frame : FrameId) {name : Value} (h : name.MadeFrom sources) :
    KeepsSourced sources (Value.MadeFrom sources) (Evaluation.lookup frame name) := by
  refine fun s hs => ⟨hs, ?_⟩
  rintro v ⟨⟩
  rw [TaskedStore.lookup_eq]
  exact hs.store.lookup frame h

theorem bindName (frame : FrameId) (name : Value) {value : Value} (h : value.MadeFrom sources) :
    KeepsSourced sources (Value.MadeFrom sources) (Evaluation.bind frame name value) := by
  cases name with
  | symbol text =>
    refine fun s hs => ⟨⟨hs.store.bind frame text h, hs.tasks⟩, ?_⟩
    rintro v ⟨⟩
    exact h
  | _ => exact throw _

theorem enter (params : List Value) (captured : FrameId) {arguments : List Value}
    (h : ∀ v ∈ arguments, v.MadeFrom sources) :
    KeepsSourced sources (fun _ => True) (Evaluation.enter params arguments captured) := by
  unfold Evaluation.enter
  cases hbindings : callBindings? params arguments with
  | none => exact pure trivial
  | some result =>
    cases result with
    | error name => exact throw _
    | ok bindings =>
      have hall : ∀ entry ∈ bindings, entry.2.MadeFrom sources := fun entry hentry =>
        h _ (snd_mem_of_callBindings? hbindings hentry)
      exact fun s hs => ⟨⟨hs.store.newFrame hall (some captured), hs.tasks⟩, fun _ _ => trivial⟩

end KeepsSourced

def RunsCode (sources : List Value) (evaluate : EvaluatorOn TaskedStore) : Prop :=
  ∀ {expr : Value}, expr.IsCode sources → ∀ frame,
    KeepsSourced sources (Value.MadeFrom sources) (evaluate expr frame)

section Inside

variable {ew : EvaluatorOn TaskedStore} (h : RunsCode sources ew)
  (hplain : ∀ s ∈ sources, s.IsPlain)
include h hplain

theorem each_keepsSourced (frame : FrameId) {operands : Value}
    (hoperands : operands.IsOperands sources) :
    KeepsSourced sources (fun values => ∀ v ∈ values, v.MadeFrom sources)
      (Evaluation.each ew frame operands) := by
  induction operands with
  | pair head tail _ ih =>
    obtain ⟨hhead, htail⟩ := hoperands.source.pair hplain
    refine (h (.source hhead) frame).bind fun value hvalue => ?_
    refine (ih htail).bind fun values hvalues => .pure fun v hv => ?_
    rcases List.mem_cons.mp hv with rfl | hv
    · exact hvalue
    · exact hvalues v hv
  | _ => exact .pure fun v hv => by cases hv

/-- The test and the result of a clause are code, also where the clause is no list. -/
theorem clauses_keepsSourced (frame : FrameId) {operands : Value}
    (hoperands : operands.IsOperands sources)
    (hclauses : ∀ clause ∈ operands.toList, clause.isList = false →
      Value.IsCode sources Sentinel.notAPair.value) :
    KeepsSourced sources (Value.MadeFrom sources) (Evaluation.clauses ew frame operands) := by
  induction operands with
  | pair clause rest _ ih =>
    obtain ⟨hclause, hrest⟩ := hoperands.source.pair hplain
    have hparts : clause.car.IsCode sources ∧ clause.cadr.IsCode sources := by
      by_cases hlist : clause.isList = true
      · have hlisted : clause.IsOperands sources := ⟨hclause, hlist⟩
        exact ⟨.source (hlisted.car hplain), .source (hlisted.cadr hplain)⟩
      · have hcode := hclauses clause (by simp [Value.toList]) (by simpa using hlist)
        cases clause with
        | nil | pair => simp [Value.isList] at hlist
        | _ => exact ⟨hcode, hcode⟩
    refine (h hparts.1 frame).bind fun test _ => .ite ?_ (h hparts.2 frame)
    exact ih hrest fun clause hmem => hclauses clause (by simp [Value.toList, hmem])
  | _ => exact .pure (Value.madeFrom_sentinel .noBranchMatched)

theorem runSet_keepsSourced (frame : FrameId) {operands : Value}
    (hoperands : operands.IsOperands sources) :
    KeepsSourced sources (Value.MadeFrom sources) (Evaluation.runSet ew frame operands) := by
  refine .ite ?_ (.pure (Value.madeFrom_sentinel .notASymbol))
  exact (h (.source (hoperands.cadr hplain)) frame).bind fun value hvalue =>
    .bindName frame operands.car hvalue

theorem runDefine_keepsSourced (frame : FrameId) {operands : Value}
    (hoperands : operands.IsOperands sources) :
    KeepsSourced sources (Value.MadeFrom sources) (Evaluation.runDefine ew frame operands) := by
  have hname := (hoperands.car hplain).madeFrom hplain
  have hsentinel : KeepsSourced sources (Value.MadeFrom sources)
      (Pure.pure Sentinel.notASymbol.value) := .pure (Value.madeFrom_sentinel .notASymbol)
  refine .ite hsentinel (.ite ?_ (.ite ?_ hsentinel))
  · refine (h (.source (hoperands.cadr hplain)) frame).bind fun value hvalue => ?_
    exact (KeepsSourced.bindName frame operands.car hvalue).bind fun _ _ => .pure hname
  · have hclosure := Value.madeFrom_closure hplain (hoperands.cadr hplain)
      (hoperands.caddr hplain) frame
    exact (KeepsSourced.bindName frame operands.car hclosure).bind fun _ _ => .pure hname

omit h in
theorem makeClosure_madeFrom (frame : FrameId) {params body : Value}
    (hparams : params.IsSource sources) (hbody : body.IsSource sources) :
    (makeClosure params body frame).MadeFrom sources := by
  unfold makeClosure
  split
  · exact Value.madeFrom_closure hplain hparams hbody frame
  · exact Value.madeFrom_sentinel .notASymbol

theorem runForm_keepsSourced (frame : FrameId) {operands : Value}
    (hoperands : operands.IsOperands sources) (form : Form)
    (hclauses : form = .cond → ∀ clause ∈ operands.toList, clause.isList = false →
      Value.IsCode sources Sentinel.notAPair.value) :
    KeepsSourced sources (Value.MadeFrom sources)
      (Evaluation.runForm ew frame operands form) := by
  have first := h (.source (hoperands.car hplain)) frame
  have second := h (.source (hoperands.cadr hplain)) frame
  have third := h (.source (hoperands.caddr hplain)) frame
  cases form with
  | quote => exact .pure ((hoperands.car hplain).madeFrom hplain)
  | set => exact runSet_keepsSourced h hplain frame hoperands
  | define => exact runDefine_keepsSourced h hplain frame hoperands
  | lambda =>
    exact .pure (makeClosure_madeFrom hplain frame (hoperands.car hplain) (hoperands.cadr hplain))
  | and => exact first.bind fun _ _ => .ite (.pure Value.madeFrom_nil) second
  | or => exact first.bind fun _ _ => .ite second (.pure (Value.madeFrom_ofBool true))
  | «if» => exact first.bind fun _ _ => .ite third second
  | cond => exact clauses_keepsSourced h hplain frame hoperands (hclauses rfl)
  | unary operation => exact first.bind fun _ hvalue => .pure (hvalue.unary operation)
  | binary operation =>
    refine first.bind fun _ hvalue => ?_
    exact second.bind fun _ hvalue' => .pure (hvalue.binary hvalue' operation)

theorem call_keepsSourced (frame : FrameId) (params : Value) {body operands : Value}
    (captured : FrameId) (hbody : body.IsSource sources)
    (hoperands : operands.IsOperands sources) :
    KeepsSourced sources (Value.MadeFrom sources)
      (Evaluation.call ew frame params body captured operands) := by
  refine (each_keepsSourced h hplain frame hoperands).bind fun arguments harguments => ?_
  refine (KeepsSourced.enter params.toList captured harguments).bind fun entered _ => ?_
  cases entered with
  | none => exact .pure (Value.madeFrom_sentinel .arityMismatch)
  | some inner => exact h (.source hbody) inner

theorem level_runsCode : RunsCode sources (Evaluation.level ew) := by
  intro expr hexpr frame
  have hvalue := hexpr.madeFrom hplain
  cases hexpr with
  | clause => exact .lookup frame hvalue
  | source hsource =>
    cases expr with
    | symbol name => exact .lookup frame hvalue
    | pair head operands =>
      obtain ⟨hhead, hoperands⟩ := hsource.pair hplain
      rw [Evaluation.level]
      cases hform : Form.ofHead? head with
      | some form =>
        refine runForm_keepsSourced h hplain frame hoperands form ?_
        rintro rfl clause hclause hlist
        rcases hsource with hnil | ⟨s, hs, hpart⟩
        · cases hnil
        · rw [Form.eq_of_ofHead?_cond hform] at hpart
          exact .clause hs hpart hclause hlist
      | none =>
        refine (h (.source hhead) frame).bind fun operator hoperator => ?_
        cases operator with
        | closure params body captured =>
          have hbody := (hoperator params body captured .self).2
          exact call_keepsSourced h hplain frame params captured hbody hoperands
        | _ => exact .pure hvalue
    | _ => exact .pure hvalue

omit hplain in
theorem noting_runsCode : RunsCode sources (noting ew) := by
  intro expr hexpr frame s hs
  refine h hexpr frame _ ⟨hs.store, fun task htask => ?_⟩
  rcases List.mem_append.mp htask with hold | hnew
  · exact hs.tasks task hold
  · rw [List.mem_singleton.mp hnew]
    exact ⟨hexpr, hs.store⟩

end Inside

theorem recording_runsCode (hplain : ∀ s ∈ sources, s.IsPlain) (limit : Nat) :
    RunsCode sources (recording limit) := by
  induction limit with
  | zero => exact noting_runsCode fun _ _ => .throw .tooDeep
  | succ limit ih => exact noting_runsCode (level_runsCode ih hplain)

section Evaluate

variable (hplain : ∀ s ∈ sources, s.IsPlain) (limit : Nat) {expr : Value}
  (hexpr : expr.IsCode sources) (frame : FrameId) {store : Store}
  (hstore : store.MadeFrom sources)
include hplain hexpr hstore

theorem sourced_recording :
    Sourced sources ⟨((evaluate limit expr frame).run store).2, tasks limit expr frame store⟩ ∧
      ∀ v, ((evaluate limit expr frame).run store).1 = .ok v → v.MadeFrom sources := by
  have hstart : Sourced sources ⟨store, []⟩ := ⟨hstore, fun task htask => by cases htask⟩
  have hrun := recording_runsCode hplain limit hexpr frame _ hstart
  rw [run_recording, List.nil_append] at hrun
  exact hrun

theorem madeFrom_evaluate {v : Value}
    (h : ((evaluate limit expr frame).run store).1 = .ok v) : v.MadeFrom sources :=
  (sourced_recording hplain limit hexpr frame hstore).2 v h

theorem madeFrom_store_evaluate : ((evaluate limit expr frame).run store).2.MadeFrom sources :=
  (sourced_recording hplain limit hexpr frame hstore).1.store

theorem fromSources_of_mem_tasks {task : Task} (h : task ∈ tasks limit expr frame store) :
    task.FromSources sources :=
  (sourced_recording hplain limit hexpr frame hstore).1.tasks task h

end Evaluate

end Evaluation

end Lisplet
